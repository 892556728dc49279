import ServiceRegistry.Client
import ServiceRegistry.Proofs.Announcing.Calls
import ServiceRegistry.Proofs.Catalog.Editions
import ServiceRegistry.Proofs.Directory.Republishing
import ServiceRegistry.Proofs.Directory.Tidy
import ServiceRegistry.Proofs.Worker.Runs

/-! # What a pass of a client does

A pass of a client lists its root and hands the names to its follower and, if it announces, to its
publisher (`Client.Crew`). Whatever the other clients do meanwhile, it makes no nodes but those of
the records of its roster, and it puts nothing into quarantine (`Client.keeps_work`).

If the list of children stays the same and the roster is not changed until the pass succeeds, the
catalogue shows the records of the list, and every desired record is one of them
(`Client.leads_visitAll`). -/

namespace ServiceRegistry

/-! ### Publishers -/

namespace Publisher

/-- Parts of a visit leave the root of the publisher and what it noticed of the roster. -/
def IsSame (p q : Publisher) : Prop := q.root = p.root ∧ q.noticed = p.noticed

theorem isSame_confirm (p : Publisher) (r : Record) (generation : Nat) :
    p.IsSame (p.confirm r generation) := by
  unfold confirm
  split <;> exact ⟨rfl, rfl⟩

theorem IsSame.trans {p q q' : Publisher} (h : p.IsSame q) (h' : q.IsSame q') : p.IsSame q' :=
  ⟨h'.1.trans h.1, h'.2.trans h.2⟩

theorem IsSame.confirm {p q : Publisher} (h : p.IsSame q) (r : Record) (generation : Nat) :
    p.IsSame (q.confirm r generation) := h.trans (q.isSame_confirm r generation)

end Publisher

/-! ### Followers -/

namespace Follower

variable {t : Script.Terms Catalog}

theorem keeps_begin (penalty : Nat) (paths : List String) (h : Harvest)
    (hasks : ∀ path ∈ paths, t.asks (.beginRead path) ∧ t.asks (.finishRead path))
    (hbegin : ∀ path ms, ¬t.hears (.beginRead path) (.ok (some ms)))
    (hfinish : ∀ path data, t.hears (.finishRead path) (.ok data) → ∃ r : Record, data = r.encode) :
    (begin' penalty paths [] h).Keeps t fun out =>
      out.1.quarantine = h.quarantine ∧ ∀ slow, out.2 = .ok slow → slow = [] := by
  induction paths generalizing h with
  | nil => exact ⟨rfl, fun slow hslow => by cases hslow; rfl⟩
  | cons path paths ih =>
      have hrest := fun h' => ih h' fun path' hpath => hasks path' (List.mem_cons_of_mem _ hpath)
      refine ⟨(hasks path (by simp)).1, fun answer hhears => ?_⟩
      cases answer with
      | error e =>
          dsimp only
          split
          · exact ⟨rfl, fun slow hslow => by cases hslow⟩
          · exact hrest h
      | ok delay =>
          cases delay with
          | some ms => exact absurd hhears (hbegin path ms)
          | none =>
              refine Script.keeps_bind ⟨(hasks path (by simp)).2, fun answer hhears => ?_⟩
              cases answer with
              | error e =>
                  dsimp only
                  split
                  · exact ⟨rfl, fun slow hslow => by cases hslow⟩
                  · exact hrest h
              | ok data =>
                  obtain ⟨r, rfl⟩ := hfinish path data hhears
                  dsimp only
                  rw [reap_encode]
                  exact fun _ => hrest { h with records := h.records ++ [r] }

theorem keeps_visit (f : Follower) (hquarantine : f.quarantine = .empty) (children : List String)
    (hasks : ∀ name ∈ children, t.asks (.beginRead (Path.child f.root name)) ∧
      t.asks (.finishRead (Path.child f.root name)))
    (hbegin : ∀ path ms, ¬t.hears (.beginRead path) (.ok (some ms)))
    (hfinish : ∀ path data, t.hears (.finishRead path) (.ok data) → ∃ r : Record, data = r.encode)
    (hpublish : ∀ catalog layout rs, t.shared catalog →
      t.shared (catalog.publish layout rs) ∧ t.changes catalog (catalog.publish layout rs)) :
    (f.visit children).Keeps t fun out => out.1.root = f.root ∧ out.1.quarantine = .empty := by
  intro now
  refine Script.keeps_bind ((keeps_begin f.penalty _ _ (fun path hpath => ?_) hbegin
    hfinish).mono ?_)
  · obtain ⟨name, hname, rfl⟩ := List.mem_map.mp (List.mem_filter.mp hpath).1
    exact hasks name hname
  · rintro ⟨h, result⟩ ⟨hh, hslow⟩
    rw [hquarantine] at hh
    cases result with
    | error e => exact ⟨rfl, hh⟩
    | ok slow =>
        obtain rfl := hslow slow rfl
        exact ⟨fun catalog hcatalog => hpublish catalog _ _ hcatalog, rfl, hh⟩

end Follower

/-! ### Visitors of a client -/

namespace Client

/-- The visitors of a client that may announce or not. Its publisher has noticed a generation of the
roster. -/
inductive Crew (root : String) (noticed : Nat) : Bool → List Member → Prop
  | following {f : Follower} (root_eq : f.root = root) (quarantine_eq : f.quarantine = .empty) :
      Crew root noticed false [.follower f]
  | announcing {f : Follower} {p : Publisher} (root_eq : f.root = root)
      (quarantine_eq : f.quarantine = .empty) (publisher_root_eq : p.root = root)
      (noticed_eq : p.noticed = noticed) : Crew root noticed true [.follower f, .publisher p]

theorem Crew.exists_publisher {root : String} {noticed : Nat} {announces : Bool}
    {vs : List Member} (h : Crew root noticed announces vs) (ha : announces = true) :
    ∃ p, .publisher p ∈ vs ∧ p.noticed = noticed := by
  cases h with
  | following => cases ha
  | announcing _ _ _ noticed_eq => exact ⟨_, by simp, noticed_eq⟩

/-- The survey of a client. -/
structure IsSurvey (root : String) (announces : Bool) (noticed : Nat) (t : Survey Member) :
    Prop where
  root_eq : t.root = root
  crew : Crew root noticed announces t.visitors

/-- Does the client publish its roster? -/
def announces (c : Client) : Bool := c.isWritable && c.settings.announceEnabled

theorem isSurvey_survey (c : Client) : IsSurvey c.settings.root c.announces 0 c.survey := by
  refine ⟨rfl, ?_⟩
  simp only [survey, Survey.make, announces]
  cases c.isWritable && c.settings.announceEnabled with
  | true => exact .announcing rfl rfl rfl rfl
  | false => exact .following rfl rfl

variable {used : Record → Prop} {root : String} {announces : Bool} {noticed : Nat}

/-- Asked at a tick, the publisher notices the roster, and the counter tells if that is new. -/
theorem IsSurvey.request {t : Survey Member} (h : IsSurvey root announces noticed t)
    (y : Shared) (hle : noticed ≤ y.roster.generation) (tick generation : Nat) :
    ∃ noticed', noticed' ≤ y.roster.generation ∧
      IsSurvey root announces noticed' (Task.request t y tick generation).1 ∧
      ((Task.request t y tick generation).2 = generation → noticed' = noticed) := by
  obtain ⟨hroot, hcrew⟩ := h
  simp only [Task.request, Survey.request]
  split
  · exact ⟨noticed, hle, ⟨hroot, hcrew⟩, fun _ => rfl⟩
  · generalize t.visitors = vs at hcrew
    cases hcrew with
    | following root_eq quarantine_eq =>
        exact ⟨noticed, hle, ⟨hroot, .following root_eq quarantine_eq⟩, fun _ => rfl⟩
    | announcing root_eq quarantine_eq publisher_root_eq noticed_eq =>
        rename_i f p
        simp only [Survey.requestAll, Visitor.request, Publisher.request]
        split
        · refine ⟨y.roster.generation, Nat.le_refl _, ⟨hroot, ?_⟩, fun hsame => ?_⟩
          · exact .announcing root_eq quarantine_eq publisher_root_eq rfl
          · dsimp only at hsame
            omega
        · refine ⟨noticed, hle, ⟨hroot, ?_⟩, fun _ => rfl⟩
          exact .announcing root_eq quarantine_eq publisher_root_eq noticed_eq

/-! ### What a pass keeps to -/

/-- What the passes of clients keep to: rosters hold records of the run, nodes are made for such
records only, and all payloads below the root are those of records. -/
def terms (used : Record → Prop) (root : String) : Script.Terms Shared where
  shared y := ∀ r ∈ y.roster.desired, used r
  changes y y' := y'.roster.generation = y.roster.generation
  asks
    | .create path data _ => ∃ r, used r ∧ path = Path.child root r.nodeName ∧ data = r.encode
    | .finishRead path => Path.parent path = root
    | _ => True
  hears
    | .list _ _, .ok names => ∀ name ∈ names, Path.IsName name
    | .beginRead _, .ok (some _) => False
    | .finishRead _, .ok data => ∃ r : Record, data = r.encode
    | _, _ => True

variable {names : List String}

theorem keeps_follower (hroot : Path.IsDirectory root) {f : Follower} (hf : f.root = root)
    (hquarantine : f.quarantine = .empty) (hnames : ∀ name ∈ names, Path.IsName name)
    (id : SessionId) (gen : Nat) :
    (Visitor.visit (Member.follower f) names id gen).Keeps (terms used root)
      fun out => ∃ f', out.1 = .follower f' ∧ f'.root = root ∧ f'.quarantine = .empty := by
  let t : Script.Terms Catalog :=
    { asks := (terms used root).asks, hears := (terms used root).hears }
  have hvisit : (f.visit names).Keeps t fun out =>
      out.1.root = f.root ∧ out.1.quarantine = .empty :=
    f.keeps_visit hquarantine names
      (fun name hname => ⟨trivial, by
        rw [hf]
        exact Path.parent_child hroot.1 (hnames name hname)⟩)
      (fun _ _ h => h) (fun _ _ h => h) fun _ _ _ _ => ⟨trivial, trivial⟩
  refine Script.keeps_bind (Script.keeps_zoom (hvisit.mono fun out hout => ?_) ?_ ?_ ?_ ?_)
  · exact ⟨out.1, rfl, hout.1.trans hf, hout.2⟩
  · exact fun _ _ => trivial
  · exact fun y catalog hy _ _ => ⟨hy, rfl⟩
  · exact fun _ h => h
  · exact fun _ _ h => h

theorem keeps_publisher {p : Publisher} (hp : p.root = root) (id : SessionId) (gen : Nat) :
    (Visitor.visit (Member.publisher p) names id gen).Keeps (terms used root)
      fun out => ∃ p', out.1 = .publisher p' ∧ p.IsSame p' := by
  let t : Script.Terms Roster :=
    { shared := fun roster => ∀ r ∈ roster.desired, used r
      changes := fun roster roster' => roster'.generation = roster.generation
      asks := (terms used root).asks
      hears := (terms used root).hears }
  have hvisit : (p.visit names gen).Keeps t fun out => p.IsSame out.1 := by
    refine Publisher.keeps_visit p.IsSame names gen ⟨rfl, rfl⟩ (fun _ _ q r _ h => h.confirm r gen)
      (fun _ _ h => h) (fun roster hroster r hr => ?_) (fun _ _ _ _ => trivial)
      (fun _ _ h => ⟨h, rfl⟩) fun _ _ _ _ => trivial
    exact ⟨r, hroster r hr, by rw [hp], rfl⟩
  refine Script.keeps_bind (Script.keeps_zoom (hvisit.mono fun out hout => ?_) ?_ ?_ ?_ ?_)
  · exact ⟨out.1, rfl, hout⟩
  · exact fun y hy => hy
  · exact fun y roster _ hroster hsame => ⟨hroster, hsame⟩
  · exact fun _ h => h
  · exact fun _ _ h => h

theorem keeps_visitAll (hroot : Path.IsDirectory root) {vs : List Member}
    (h : Crew root noticed announces vs) (hnames : ∀ name ∈ names, Path.IsName name)
    (id : SessionId) (gen : Nat) :
    (Survey.visitAll names id gen vs).Keeps (terms used root)
      fun out => Crew root noticed announces out.1 := by
  cases h with
  | following root_eq quarantine_eq =>
      refine Script.keeps_bind ((keeps_follower hroot root_eq quarantine_eq hnames id gen).mono ?_)
      rintro ⟨v, result⟩ ⟨f, rfl, hf, hquarantine⟩
      cases result with
      | error e => exact .following hf hquarantine
      | ok u => exact .following hf hquarantine
  | announcing root_eq quarantine_eq publisher_root_eq noticed_eq =>
      refine Script.keeps_bind ((keeps_follower hroot root_eq quarantine_eq hnames id gen).mono ?_)
      rintro ⟨v, result⟩ ⟨f, rfl, hf, hquarantine⟩
      cases result with
      | error e => exact .announcing hf hquarantine publisher_root_eq noticed_eq
      | ok u =>
          refine Script.keeps_bind (Script.keeps_bind
            ((keeps_publisher publisher_root_eq id gen).mono ?_))
          rintro ⟨v, result⟩ ⟨p, rfl, hp⟩
          cases result with
          | error e =>
              exact .announcing hf hquarantine (hp.1.trans publisher_root_eq)
                (hp.2.trans noticed_eq)
          | ok u =>
              exact .announcing hf hquarantine (hp.1.trans publisher_root_eq)
                (hp.2.trans noticed_eq)

theorem keeps_work (hroot : Path.IsDirectory root) {t : Survey Member}
    (h : IsSurvey root announces noticed t) (id : SessionId) (pass : Pass) :
    (Task.work t id pass).Keeps (terms used root)
      fun out => IsSurvey root announces noticed out.1 := by
  refine ⟨trivial, fun answer hhears => ?_⟩
  cases answer with
  | error e => exact h
  | ok names =>
      refine Script.keeps_bind ((keeps_visitAll hroot h.crew hhears id pass.generation).mono ?_)
      exact fun out hout => ⟨h.root_eq, hout⟩

/-! ### Where a pass leads while the list stays the same -/

/-- What a call is answered as long as the children of a tidy root are the nodes of some records. -/
def Fits (root : String) (rs : List Record) : (r : Request) → Except StoreError r.Answer → Prop
  | .beginRead _, answer =>
      answer = .ok none ∨ ∃ e, answer = .error e ∧ Follower.isFatal e = true
  | .finishRead path, answer =>
      ∀ r ∈ rs, path = Path.child root r.nodeName → answer = .ok r.encode
  | .create path _ _, answer =>
      ∀ name, Path.IsName name → path = Path.child root name → name ∉ rs.map (·.nodeName) →
        ∃ e, answer = .error e ∧ e.isNodeExists = false
  | _, _ => True

/-- A client during a pass in which the list stays the same. Its roster is not changed from outside,
or it does not matter. -/
def calmParty (root : String) (announces : Bool) (rs : List Record) :
    Script.Party Shared Shared where
  get y := y
  set y _ := y
  answers y r answer y' := y' = y ∧ Fits root rs r answer
  drift y y' := y'.catalog = y.catalog ∧ (announces = true → y'.roster = y.roster)
  drift_refl _ := ⟨rfl, fun _ => rfl⟩
  drift_trans h h' := ⟨h'.1.trans h.1, fun ha => (h'.2 ha).trans (h.2 ha)⟩

/-- The catalogue shows the records, and if the client announces, all that it wants are there. -/
structure Displays (announces : Bool) (rs : List Record) (y : Shared) : Prop where
  shows : y.catalog.Shows rs
  desired : announces = true → ∀ r ∈ y.roster.desired, r.nodeName ∈ rs.map (·.nodeName)

/-- The end that a pass leads to. -/
def Ends (announces : Bool) (rs : List Record) (out : Survey Member × Except StoreError Bool)
    (y : Shared) : Prop := Worker.Course.isComplete out.2 = true → Displays announces rs y

theorem Displays.drift {rs : List Record} {y y' : Shared} (h : Displays announces rs y)
    (hdrift : (calmParty root announces rs).drift y y') : Displays announces rs y' :=
  ⟨hdrift.1 ▸ h.shows, fun ha => hdrift.2 ha ▸ h.desired ha⟩

variable {rs : List Record} {y : Shared}

/-- The reads of a follower harvest the records of the list. -/
theorem leads_begin (penalty : Nat) {rs' : List Record} (hrs : ∀ r ∈ rs', r ∈ rs)
    (h : Follower.Harvest) :
    (Follower.begin' penalty (rs'.map fun r => Path.child root r.nodeName) [] h).Leads
      ((calmParty root announces rs).zoom Shared.catalog fun catalog y => { y with catalog })
      (fun out y' => (∀ slow, out.2 = .ok slow → slow = [] ∧ out.1.records = h.records ++ rs') ∧
        (announces = true → y'.roster = y.roster)) y := by
  induction rs' generalizing h y with
  | nil =>
      intro y' hdrift
      refine ⟨fun slow hslow => ?_, hdrift.2⟩
      cases hslow
      exact ⟨rfl, (List.append_nil _).symm⟩
  | cons r rs' ih =>
      rintro y' hdrift answer y'' ⟨rfl, rfl | ⟨e, rfl, hfatal⟩⟩
      · refine Script.leads_bind ?_
        rintro z hz answer z' ⟨rfl, hread⟩
        obtain rfl := hread r (hrs r (by simp)) rfl
        dsimp only
        rw [Follower.reap_encode]
        intro _ z'' hz'
        refine (ih (fun r' hr' => hrs r' (List.mem_cons_of_mem r hr')) _).mono ?_
        rintro out last ⟨hout, hroster⟩
        refine ⟨fun slow hslow => ?_, fun ha => ?_⟩
        · obtain ⟨hnil, hrecords⟩ := hout slow hslow
          exact ⟨hnil, by rw [hrecords]; simp⟩
        · exact (hroster ha).trans ((hz'.2 ha).trans ((hz.2 ha).trans (hdrift.2 ha)))
      · dsimp only
        rw [if_pos hfatal]
        exact fun z hz => ⟨fun slow hslow => (by cases hslow),
          fun ha => (hz.2 ha).trans (hdrift.2 ha)⟩

/-- A follower that succeeds has published the records of the list. -/
theorem leads_follower {f : Follower} (hf : f.root = root) (hquarantine : f.quarantine = .empty)
    (id : SessionId) (gen : Nat) :
    (Visitor.visit (Member.follower f) (rs.map (·.nodeName)) id gen).Leads
      (calmParty root announces rs)
      (fun out y' => (out.2 = .ok () → y'.catalog.Shows rs) ∧
        (announces = true → y'.roster = y.roster)) y := by
  have hvisit : (f.visit (rs.map (·.nodeName))).Leads
      ((calmParty root announces rs).zoom Shared.catalog fun catalog y => { y with catalog })
      (fun out y' => (out.2 = .ok () → y'.catalog.Shows rs) ∧
        (announces = true → y'.roster = y.roster)) y := by
    intro now
    -- nothing is in quarantine, so that every node is read
    have hadmitted : ((rs.map (·.nodeName)).map (Path.child f.root)).filter
        (fun p => !f.isQuarantined now p) = rs.map fun r => Path.child root r.nodeName := by
      rw [List.filter_eq_self.mpr, List.map_map, hf]
      · rfl
      · intro p _
        simp [Follower.isQuarantined, hquarantine]
    unfold Follower.visitAt
    dsimp only
    rw [hadmitted]
    refine Script.leads_bind ((leads_begin f.penalty (fun _ hr => hr) _).mono ?_)
    rintro ⟨h, result⟩ y' ⟨hslow, hroster⟩
    cases result with
    | error e =>
        exact fun z hz => ⟨fun hok => (by cases hok), fun ha => (hz.2 ha).trans (hroster ha)⟩
    | ok slow =>
        obtain ⟨rfl, hrecords⟩ := hslow slow rfl
        intro z hz z' hz'
        refine ⟨fun _ => ?_, fun ha => (hz'.2 ha).trans ((hz.2 ha).trans (hroster ha))⟩
        rw [hz'.1, show h.records = rs from hrecords]
        exact Catalog.shows_publish _ _ _
  refine Script.leads_bind (Script.leads_zoom (hvisit.mono fun out y' hout => ?_))
  intro z hz
  exact ⟨fun hok => hz.1 ▸ hout.1 hok, fun ha => (hz.2 ha).trans (hout.2 ha)⟩

theorem eq_of_drift {y y' : Shared}
    (h : y'.catalog = y.catalog ∧ (true = true → y'.roster = y.roster)) : y' = y := by
  obtain ⟨hcatalog, hroster⟩ := h
  cases y
  cases y'
  cases hcatalog
  cases hroster rfl
  rfl

/-- A publisher makes no nodes: those of desired records are there already. -/
theorem leads_makeMissing {p : Publisher} (hp : p.root = root) (gen : Nat) {desired : List Record}
    (hnames : ∀ r ∈ desired, Path.IsName r.nodeName) :
    (Publisher.makeMissing (rs.map (·.nodeName)) gen desired p).Leads
      ((calmParty root true rs).zoom Shared.roster fun roster y => { y with roster })
      (fun out y' => (out.2 = .ok () → ∀ r ∈ desired, r.nodeName ∈ rs.map (·.nodeName)) ∧
        y' = y) y := by
  induction desired generalizing p y with
  | nil => exact fun y' hdrift => ⟨fun _ r hr => (by cases hr), eq_of_drift hdrift⟩
  | cons r desired ih =>
      have hsame := p.isSame_confirm r gen
      unfold Publisher.makeMissing
      dsimp only
      split
      · next hlisted =>
        refine (ih (hsame.1.trans hp) fun r' hr' => hnames r' (List.mem_cons_of_mem r hr')).mono ?_
        rintro out y' ⟨hout, rfl⟩
        refine ⟨fun hok r' hr' => ?_, rfl⟩
        rcases List.mem_cons.mp hr' with rfl | hr'
        · exact hlisted
        · exact hout hok r' hr'
      · next hunlisted =>
        rintro y' hdrift answer y'' ⟨rfl, hmissing⟩
        obtain rfl := eq_of_drift hdrift
        obtain ⟨e, rfl, he⟩ := hmissing r.nodeName (hnames r (by simp))
          (by rw [hsame.1, hp]) hunlisted
        dsimp only
        rw [if_neg (by simp [he])]
        exact fun z hz => ⟨fun hok => (by cases hok), eq_of_drift hz⟩

/-- A publisher that succeeds after the list was published leaves the catalogue, and what is desired
is listed. -/
theorem leads_publisher {p : Publisher} (hp : p.root = root) (id : SessionId) (gen : Nat)
    (hshows : y.catalog.Shows rs) (hnames : ∀ r ∈ y.roster.desired, Path.IsName r.nodeName) :
    (Visitor.visit (Member.publisher p) (rs.map (·.nodeName)) id gen).Leads
      (calmParty root true rs) (fun out y' => out.2 = .ok () → Displays true rs y') y := by
  let t : Script.Terms Roster := { shared := fun roster => roster.desired = y.roster.desired }
  have hvisit : (p.visit (rs.map (·.nodeName)) gen).Leads
      ((calmParty root true rs).zoom Shared.roster fun roster y => { y with roster })
      (fun out y' => out.2 = .ok () → Displays true rs y') y := by
    intro y' hdrift
    obtain rfl := eq_of_drift hdrift
    refine Script.leads_bind ((leads_makeMissing hp gen hnames).mono ?_)
    rintro ⟨q, result⟩ z ⟨hlisted, rfl⟩
    cases result with
    | error e => exact fun _ _ hok => by cases hok
    | ok u =>
        have hafter := Publisher.keeps_afterMaking (t := t) q.IsSame gen ⟨rfl, rfl⟩
          (fun _ _ h => h) (fun _ _ => trivial) (fun _ _ h => ⟨h, trivial⟩) fun _ _ _ _ => trivial
        have hleads := hafter.leads
          (p := (calmParty root true rs).zoom Shared.roster fun roster y => { y with roster })
          (fun y' => y'.catalog = z.catalog ∧ y'.roster.desired = z.roster.desired)
          (fun _ h => h.2) (fun s s' h hd => eq_of_drift hd ▸ h)
          (fun s r answer s' h _ ha => ⟨trivial, ha.1 ▸ h⟩) (fun s roster h hr => ⟨h.1, hr⟩)
          (s := z) ⟨rfl, rfl⟩
        refine hleads.mono fun out y' hinv _ => ⟨?_, fun _ => ?_⟩
        · rw [hinv.2.1]
          exact hshows
        · rw [hinv.2.2]
          exact hlisted rfl
  refine Script.leads_bind (Script.leads_zoom (hvisit.mono fun out y' hout => ?_))
  intro z hz
  exact fun hok => eq_of_drift hz ▸ hout hok

/-- All visitors succeed only if the catalogue shows the list, and what is desired is in it. -/
theorem leads_visitAll {vs : List Member} (h : Crew root noticed announces vs) (id : SessionId)
    (gen : Nat)
    (hnames : announces = true → ∀ r ∈ y.roster.desired, Path.IsName r.nodeName) :
    (Survey.visitAll (rs.map (·.nodeName)) id gen vs).Leads (calmParty root announces rs)
      (fun out y' => out.2 = .ok () → Displays announces rs y') y := by
  cases h with
  | following root_eq quarantine_eq =>
      refine Script.leads_bind ((leads_follower root_eq quarantine_eq id gen).mono ?_)
      rintro ⟨v, result⟩ y' ⟨hshows, -⟩
      cases result with
      | error e => exact fun _ _ hok => by cases hok
      | ok u => exact fun z hz _ => ⟨hz.1 ▸ hshows rfl, fun ha => by cases ha⟩
  | announcing root_eq quarantine_eq publisher_root_eq noticed_eq =>
      refine Script.leads_bind ((leads_follower root_eq quarantine_eq id gen).mono ?_)
      rintro ⟨v, result⟩ y' ⟨hshows, hroster⟩
      cases result with
      | error e => exact fun _ _ hok => by cases hok
      | ok u =>
          have hdesired : ∀ r ∈ y'.roster.desired, Path.IsName r.nodeName := by
            rw [hroster rfl]
            exact hnames rfl
          refine Script.leads_bind (Script.leads_bind
            ((leads_publisher publisher_root_eq id gen (hshows rfl) hdesired).mono ?_))
          rintro ⟨v, result⟩ y'' hdisplays
          cases result with
          | error e =>
              exact fun _ _ _ _ hok => by cases hok
          | ok u =>
              intro z hz z' hz' _
              exact ((hdisplays rfl).drift hz).drift hz'

/-- A pass that has listed the root leads to a catalogue that shows the list. -/
theorem leads_afterList {t : Survey Member} (h : IsSurvey root announces noticed t)
    (id : SessionId) (pass : Pass)
    (hnames : announces = true → ∀ r ∈ y.roster.desired, Path.IsName r.nodeName) :
    ((do
      let (visitors, result) ← Survey.visitAll (rs.map (·.nodeName)) id pass.generation t.visitors
      return ({ t with visitors }, result.map fun _ => true) :
        Script Shared (Survey Member × Except StoreError Bool))).Leads
      (calmParty root announces rs) (Ends announces rs) y := by
  refine Script.leads_bind ((leads_visitAll h.crew id pass.generation hnames).mono ?_)
  rintro ⟨vs, result⟩ y' hdisplays z hz hcomplete
  cases result with
  | error e => cases hcomplete
  | ok u => exact (hdisplays rfl).drift hz

end Client

end ServiceRegistry
