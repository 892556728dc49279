import ServiceRegistry.Proofs.Client.Visits
import ServiceRegistry.Proofs.Worker.Watching

/-! # What a client knows of its directory

A client is calm if the last pass was for the current generation, its session is live and was not
told of a change, and its publisher, if it has one, has noticed the present roster (`Client.Calm`).
A client that is calm was calm at every moment since that pass listed the root, for whatever happens
meanwhile ends the calm for good. So all that time the list stayed the same, and the pass leads to a
catalogue that shows it (`Client.Follows`).

`Client.Follows` is kept by what others do (`Follows.others`) and by the moves of the client's own
worker (`Follows.move`). -/

namespace ServiceRegistry

namespace Client

open Store Worker

variable {used : Record → Prop} {root : String} {announces : Bool} {noticed : Nat}
  {rs : List Record}

/-- The course of a client's worker. -/
abbrev Course := Worker.Course (Survey Member) Shared

/-- What is left of a pass of a client. -/
abbrev Rest := Script Shared (Survey Member × Except StoreError Bool)

/-- The publisher, if the member is one. -/
def Member.publisher? : Member → Option Publisher
  | .follower _ => none
  | .publisher p => some p

theorem Member.forall_publisher?_iff {vs : List Member} {P : Publisher → Prop} :
    (∀ v ∈ vs, ∀ p ∈ v.publisher?, P p) ↔ ∀ p, .publisher p ∈ vs → P p := by
  constructor
  · exact fun h p hp => h _ hp p rfl
  · intro h v hv p hp
    cases v with
    | follower f => cases hp
    | publisher q =>
        cases hp
        exact h _ hv

variable {c d : Client.Course} {a : Account} {x x' : Rest} {e : Option Exchange} {s : Store}
  {y : Shared}

/-! ### Calls in a tidy directory -/

theorem suits_of_asks {r : Request} (h : (terms used root).asks r) (id : SessionId) :
    (Deed.serve id r).Suits used root := by
  cases r with
  | create path data mode => exact h
  | _ => trivial

/-- What a call of a pass is answered. -/
theorem hears_serve (h : c.store.Tidy used root) (id : SessionId) {r : Request}
    (hasks : (terms used root).asks r) :
    (terms used root).hears r (c.store.serve id r).1 := by
  cases r with
  | list path watching =>
      rcases c.store.list_cases id path watching with ⟨code, s', hlist, -⟩ | ⟨s', hlist, -⟩
      · rw [serve, hlist]
        trivial
      · rw [serve, hlist]
        intro name hname
        obtain ⟨p, -, rfl⟩ := List.mem_map.mp hname
        exact Path.isName_name p
  | beginRead path =>
      rcases h.beginRead_answer id path with hok | ⟨e, herror, -⟩
      · rw [serve, hok]
        trivial
      · rw [serve, herror]
        trivial
  | finishRead path =>
      simp only [serve, finishRead]
      split
      · next data hdata =>
        obtain ⟨r, -, -, hr⟩ := h.encode_of_data? hasks hdata
        exact ⟨r, hr⟩
      · trivial
  | probe path => trivial
  | create path data mode => trivial
  | delete path => trivial

/-- What a call is answered that leaves the list as it is. -/
theorem fits_serve (h : c.store.Tidy used root) (hroot : Path.IsDirectory root)
    (hd : Publisher.Distinct used) (hrs : ∀ r ∈ rs, used r)
    (hnames : c.store.children root = rs.map (·.nodeName)) (id : SessionId) (r : Request)
    (hsame : (c.store.serve id r).2.children root = c.store.children root) :
    Fits root rs r (c.store.serve id r).1 := by
  cases r with
  | list path watching => trivial
  | beginRead path => exact h.beginRead_answer id path
  | finishRead path =>
      rintro r hr rfl
      exact h.finishRead_of_listed hroot hd (hrs r hr) (hnames ▸ List.mem_map_of_mem hr)
  | probe path => trivial
  | create path data mode =>
      rintro name hname rfl hunlisted
      exact h.create_of_unlisted hroot hname (hnames ▸ hunlisted) hsame
  | delete path => trivial

/-- One step leads where the script leads. -/
theorem leads_step {α : Type} {post : α → Shared → Prop} {z z' : Script Shared α}
    {id : SessionId} {s' : Store} {y' : Shared} (h : z.Leads (calmParty root announces rs) post y)
    (hstep : z.Step id s y e z' s' y')
    (hfits : ∀ r, s' = (s.serve id r).2 → Fits root rs r (s.serve id r).1) :
    z'.Leads (calmParty root announces rs) post y' :=
  h.step hstep rfl rfl (fun r _ hs hy => ⟨hy, hfits r hs⟩) fun _ => rfl

/-! ### Ticks -/

/-- At a tick the survey of a client is asked at most once. If that notices a new roster, the
counter rises. -/
theorem request_beginTick {P : Nat → Survey Member → Prop} (w : Worker (Survey Member)) (s : Store)
    (h : P noticed w.task) (hle : noticed ≤ y.roster.generation)
    (hrequest : ∀ tick generation, ∃ noticed', noticed' ≤ y.roster.generation ∧
      P noticed' (Task.request w.task y tick generation).1 ∧
      ((Task.request w.task y tick generation).2 = generation → noticed' = noticed)) :
    ∃ noticed', noticed' ≤ y.roster.generation ∧
      P noticed' (w.beginTick s receive receive y).2.1.task ∧
      ((w.beginTick s receive receive y).2.1.generation = w.generation → noticed' = noticed) := by
  have hdecide : ∀ w' : Worker (Survey Member), w'.task = w.task → ∃ noticed',
      noticed' ≤ y.roster.generation ∧
      P noticed' (w'.decide y w.ticks).2.task ∧
      ((w'.decide y w.ticks).2.generation = w'.generation → noticed' = noticed) := by
    intro w' htask
    obtain ⟨noticed', hle', hsurvey, hsame⟩ := hrequest w.ticks w'.generation
    rw [← htask] at hsurvey hsame
    unfold Worker.decide
    split
    · exact ⟨noticed, hle, htask ▸ h, fun _ => rfl⟩
    · dsimp only
      split
      all_goals exact ⟨noticed', hle', hsurvey, hsame⟩
  let begun : Worker (Survey Member) := { w with ticks := w.ticks + 1 }
  let settled := begun.settle s receive receive
  have htask : settled.1.task = w.task := begun.settle_task s
  obtain ⟨noticed', hle', hsurvey, hsame⟩ := hdecide settled.1 htask
  refine ⟨noticed', hle', hsurvey, fun hgen => hsame ?_⟩
  have hfirst : w.generation ≤ settled.1.generation := (begun.advances_settle s).generation_le
  have hthen := (settled.1.advances_decide y w.ticks).generation_le
  have hgen' : (settled.1.decide y w.ticks).2.generation = w.generation := hgen
  omega

/-! ### Calm -/

/-- Since the pass listed the root nothing has happened that asks for another. -/
structure Calm (root : String) (announces : Bool) (noticed : Nat) (c : Client.Course)
    (a : Account) : Prop where
  current : a.pass.generation = c.bench.worker.generation
  live : (c.store.session? a.session).isSome = true
  untold : childrenChanged root ∉ c.store.inbox a.session
  noticed_eq : announces = true → noticed = c.shared.roster.generation

/-- A client that is calm was calm before. -/
theorem Calm.before (h : Calm root announces noticed d a)
    (hgen : d.bench.worker.generation = c.bench.worker.generation)
    (hid : a.session ≤ c.store.opened) (ht : Tells root a.session c.store d.store)
    (hle : noticed ≤ c.shared.roster.generation)
    (hroster : c.shared.roster.generation ≤ d.shared.roster.generation) :
    Calm root announces noticed c a where
  current := h.current.trans hgen
  live := ht.live hid h.live
  untold htold := h.untold (ht.inbox_subset htold)
  noticed_eq ha := by
    have := h.noticed_eq ha
    omega

/-- The list that the pass was given is still right, and watched. -/
theorem Calm.watched {names : List String} (h : Calm root announces noticed c a)
    (hw : Watched root a.session names c.store) :
    c.store.children root = names ∧ (root, a.session) ∈ c.store.watches := by
  rcases hw h.live with htold | hsame
  · exact absurd htold h.untold
  · exact hsame

/-- A client that is calm after a step is so because the list did not change. -/
theorem Calm.children_eq (h : Calm root announces noticed d a) (hid : a.session ≤ c.store.opened)
    (ht : Tells root a.session c.store d.store) (hw : (root, a.session) ∈ c.store.watches) :
    d.store.children root = c.store.children root := by
  rcases ht.watch hid h.live hw with ⟨hsame, -⟩ | htold
  · exact hsame
  · exact absurd htold h.untold

/-- The names are those of records. -/
def AreNames (used : Record → Prop) (rs : List Record) (names : List String) : Prop :=
  names = rs.map (·.nodeName) ∧ ∀ r ∈ rs, used r

/-- What a client knows of its directory. -/
structure Follows (used : Record → Prop) (root : String) (announces : Bool) (noticed : Nat)
    (c : Client.Course) : Prop where
  attends : Attends root c
  noticed_le : noticed ≤ c.shared.roster.generation
  desired_used : ∀ r ∈ c.shared.roster.desired, used r
  survey : IsSurvey root announces noticed c.bench.worker.task
  keeps : ∀ a x, c.bench.underway = some (a, x) →
    x.Keeps (terms used root) fun out => IsSurvey root announces noticed out.1
  begun : ∀ a x, c.bench.underway = some (a, x) → a.heard = [] →
    ∃ t, IsSurvey root announces noticed t ∧ x = Task.work t a.session a.pass
  underway : ∀ a x names, c.bench.underway = some (a, x) →
    a.heard.head? = some ⟨.list root true, .ok names⟩ → Calm root announces noticed c a →
      ∃ rs, AreNames used rs names ∧
        x.Leads (calmParty root announces rs) (Ends announces rs) c.shared
  completed : ∀ a names, c.bench.completed.head? = some a →
    a.heard.head? = some ⟨.list root true, .ok names⟩ →
      c.bench.worker.session = some a.session → Calm root announces noticed c a →
        ∃ rs, AreNames used rs names ∧ Displays announces rs c.shared

namespace Follows

/-- A client whose worker was just made. -/
theorem start {client : Client} (hdesired : ∀ r ∈ client.roster.desired, used r) (s : Store) :
    Follows used client.settings.root client.announces 0
      (Worker.Course.start client.survey s client.shared) where
  attends := .start client.survey s client.shared
  noticed_le := Nat.zero_le _
  desired_used := hdesired
  survey := client.isSurvey_survey
  keeps _ _ hu := by cases hu
  begun _ _ hu := by cases hu
  underway _ _ _ hu := by cases hu
  completed _ _ ha := by cases ha

/-! ### Others -/

/-- Others may act on the store, and while they change the roster they raise its generation. -/
theorem others (h : Follows used root announces noticed c)
    (ht : ∀ id, c.bench.worker.session = some id → Tells root id c.store s)
    (ho : c.store.opened ≤ s.opened) (hcatalog : y.catalog = c.shared.catalog)
    (hused : ∀ r ∈ y.roster.desired, used r)
    (hle : c.shared.roster.generation ≤ y.roster.generation)
    (hsame : y.roster.generation = c.shared.roster.generation → y.roster = c.shared.roster) :
    Follows used root announces noticed { c with store := s, shared := y } := by
  have hbefore : ∀ a, c.bench.worker.session = some a.session →
      Calm root announces noticed { c with store := s, shared := y } a →
      Calm root announces noticed c a := by
    intro a hid hcalm
    exact hcalm.before rfl (h.attends.opened _ hid) (ht _ hid) h.noticed_le hle
  have hdrift : ∀ a rs, Calm root announces noticed c a →
      Calm root announces noticed { c with store := s, shared := y } a →
      (calmParty root announces rs).drift c.shared y := by
    intro a rs hcalm hcalm'
    exact ⟨hcatalog, fun ha => hsame ((hcalm'.noticed_eq ha).symm.trans (hcalm.noticed_eq ha))⟩
  refine ⟨h.attends.others ht ho, Nat.le_trans h.noticed_le hle, hused, h.survey, h.keeps,
    h.begun, ?_, ?_⟩
  · intro a x names hu hheard hcalm
    obtain ⟨-, -, -, hid⟩ := h.attends.sound.underway a x hu
    have hcalm' := hbefore a hid hcalm
    obtain ⟨rs, hrs, hleads⟩ := h.underway a x names hu hheard hcalm'
    exact ⟨rs, hrs, hleads.drift (hdrift a rs hcalm' hcalm)⟩
  · intro a names ha hheard hid hcalm
    have hcalm' := hbefore a hid hcalm
    obtain ⟨rs, hrs, hdisplays⟩ := h.completed a names ha hheard hid hcalm'
    exact ⟨rs, hrs, hdisplays.drift (hdrift a rs hcalm' hcalm)⟩

/-! ### The client's own moves -/

theorem trigger (h : Follows used root announces noticed c) :
    Follows used root announces noticed c.trigger := by
  refine ⟨h.attends.trigger, h.noticed_le, h.desired_used, h.survey, h.keeps, h.begun, ?_, ?_⟩
  · intro a x names hu _ hcalm
    obtain ⟨-, -, hle, -⟩ := h.attends.sound.underway a x hu
    have := hcalm.current
    simp only [Course.trigger, Worker.trigger] at this
    omega
  · intro a names ha _ _ hcalm
    have := h.attends.sound.le_generation (List.mem_of_mem_head? ha)
    have := hcalm.current
    simp only [Course.trigger, Worker.trigger] at this
    omega

theorem tick (h : Follows used root announces noticed c) (hroot : Path.IsDirectory root) :
    ∃ noticed', Follows used root announces noticed' c.tick := by
  obtain ⟨noticed', hle, hsurvey, hsame⟩ :=
    request_beginTick (P := IsSurvey root announces) c.bench.worker c.store h.survey h.noticed_le
      (h.survey.request c.shared h.noticed_le)
  have hunderway : ∀ a x, c.tick.bench.underway = some (a, x) →
      a.heard = [] ∧ x = Task.work c.tick.bench.worker.task a.session a.pass := by
    intro a x hu
    simp only [Course.tick, Option.map_eq_some_iff, Prod.mk.injEq, Prod.exists] at hu
    obtain ⟨id, pass, -, rfl, rfl⟩ := hu
    exact ⟨rfl, rfl⟩
  refine ⟨noticed', h.attends.tick, hle, h.desired_used, hsurvey, ?_, ?_, ?_, ?_⟩
  · intro a x hu
    rw [(hunderway a x hu).2]
    exact keeps_work hroot hsurvey a.session a.pass
  · exact fun a x hu _ => ⟨_, hsurvey, (hunderway a x hu).2⟩
  · intro a x names hu hheard
    rw [(hunderway a x hu).1] at hheard
    cases hheard
  · intro a names ha hheard hid hcalm
    have hgen := Course.generation_tick h.attends.sound (List.mem_of_mem_head? ha) hcalm.current
    obtain ⟨hid', hstore, hquiet⟩ := c.bench.worker.beginTick_quiet c.store hid hgen
    have hstore' : c.tick.store = c.store.clearInbox a.session := hstore
    have hlive := hcalm.live
    rw [hstore'] at hlive
    refine h.completed a names ha hheard hid' ⟨hcalm.current.trans hgen, hlive, ?_, fun hann => ?_⟩
    · exact fun htold => absurd (hquiet _ htold rfl) (by simp [childrenChanged])
    · exact (hsame hgen) ▸ hcalm.noticed_eq hann

/-- The first call of a pass. -/
theorem leads_list (ht : c.store.Tidy used root) (hroot : Path.IsDirectory root)
    {t : Survey Member} (hsurvey : IsSurvey root announces noticed t)
    (hdesired : ∀ r ∈ c.shared.roster.desired, Path.IsName r.nodeName)
    (hstep : (Task.work t a.session a.pass : Rest).Step a.session c.store c.shared e x' s y)
    {names : List String} (hheard : e.toList.head? = some ⟨.list root true, .ok names⟩) :
    ∃ rs, AreNames used rs names ∧
      x'.Leads (calmParty root announces rs) (Ends announces rs) y := by
  obtain ⟨rs, hrs, hmem⟩ := ht.exists_records hroot
  have ht := hsurvey.root_eq
  subst ht
  cases hstep with
  | call r next =>
      rcases c.store.list_cases a.session t.root true with
        ⟨code, s', hlist, -⟩ | ⟨s', hlist, -⟩
      · simp [serve, hlist] at hheard
      · simp only [serve, hlist] at hheard ⊢
        cases hheard
        refine ⟨rs, ⟨hrs, fun r hr => (hmem r hr).1⟩, ?_⟩
        rw [hrs]
        exact leads_afterList hsurvey a.session a.pass fun _ => hdesired

section Steps

variable (h : Follows used root announces noticed c) (ht : c.store.Tidy used root)
  (hu : c.bench.underway = some (a, x)) (hstep : x.Step a.session c.store c.shared e x' s y)
include h ht hu hstep

/-- A step of a pass keeps to the terms. -/
theorem keeps_step : x'.Keeps (terms used root) (fun out => IsSurvey root announces noticed out.1) ∧
    (∀ r ∈ y.roster.desired, used r) ∧
    y.roster.generation = c.shared.roster.generation := by
  obtain ⟨hkeeps, hused, hchanges⟩ := (h.keeps a x hu).step hstep h.desired_used
    fun r _ hasks => hears_serve ht a.session hasks
  refine ⟨hkeeps, hused, ?_⟩
  rcases hchanges with rfl | hgen
  · rfl
  · exact hgen

/-- If the client is calm after a step that follows the list, the list did not change in it. -/
theorem leads_next (hroot : Path.IsDirectory root) (hd : Publisher.Distinct used)
    (ha : a.heard ≠ []) {names : List String}
    (hheard : a.heard.head? = some ⟨.list root true, .ok names⟩)
    (hcalm : Calm root announces noticed
      ⟨{ c.bench with underway := some (a.hear e, x') }, s, y⟩ a) :
    ∃ rs, AreNames used rs names ∧
      x'.Leads (calmParty root announces rs) (Ends announces rs) y := by
  obtain ⟨-, -, -, hid⟩ := h.attends.sound.underway a x hu
  obtain ⟨-, -, hgen⟩ := h.keeps_step ht hu hstep
  have hopened := h.attends.opened _ hid
  have htells : Tells root a.session c.store s := tells_scriptStep hstep a.session
  have hbefore : Calm root announces noticed c a :=
    hcalm.before rfl hopened htells h.noticed_le (Nat.le_of_eq hgen.symm)
  obtain ⟨rs, hrs, hleads⟩ := h.underway a x names hu hheard hbefore
  refine ⟨rs, hrs, leads_step hleads hstep fun r hs => ?_⟩
  cases h.attends.underway a x hu with
  | begun t root_eq rest heard => exact absurd heard ha
  | failed t e' root_eq rest =>
      subst rest
      cases hstep
  | listed names' heard watched rest =>
      cases heard.symm.trans hheard
      obtain ⟨hnames, harmed⟩ := hbefore.watched (watched hbefore.current)
      have hsame : s.children root = c.store.children root :=
        hcalm.children_eq hopened htells harmed
      exact fits_serve ht hroot hd hrs.2 (hnames.trans hrs.1) a.session r (hs ▸ hsame)

theorem work (hroot : Path.IsDirectory root) (hd : Publisher.Distinct used) :
    Follows used root announces noticed
      ⟨{ c.bench with underway := some (a.hear e, x') }, s, y⟩ := by
  obtain ⟨hkeeps, hused, hgen⟩ := h.keeps_step ht hu hstep
  refine ⟨h.attends.work hu hstep, hgen ▸ h.noticed_le, hused, h.survey, ?_, ?_, ?_, ?_⟩
  · intro a' x'' hu'
    cases hu'
    exact hkeeps
  · intro a' x'' hu' hnil
    cases hu'
    obtain ⟨ha, he⟩ := List.append_eq_nil_iff.mp hnil
    obtain ⟨t, -, rfl⟩ := h.begun a x hu ha
    cases hstep with
    | call r next => cases he
  · intro a' x'' names hu' hheard hcalm
    cases hu'
    by_cases ha : a.heard = []
    · obtain ⟨t, hsurvey, rfl⟩ := h.begun a x hu ha
      rw [Account.hear, ha] at hheard
      exact leads_list ht hroot hsurvey
        (fun r hr => Record.isName_nodeName (hd.plain r (h.desired_used r hr))) hstep hheard
    · rw [Account.hear, List.head?_append_of_ne_nil _ ha] at hheard
      exact h.leads_next ht hu hstep hroot hd ha hheard
        ⟨hcalm.current, hcalm.live, hcalm.untold, hcalm.noticed_eq⟩
  · intro a' names ha' _ _ hcalm
    exact absurd hcalm.current (Nat.ne_of_lt (Attends.generation_lt h.attends.sound hu ha'))

end Steps

theorem finish (h : Follows used root announces noticed c) {t : Survey Member}
    {result : Except StoreError Bool} (hu : c.bench.underway = some (a, .done (t, result))) :
    Follows used root announces noticed (c.finish a t result) := by
  have hgen : (c.finish a t result).bench.worker.generation = c.bench.worker.generation :=
    c.bench.worker.endPass_generation c.store a.pass t result
  refine ⟨h.attends.finish hu, h.noticed_le, h.desired_used, ?_, ?_, ?_, ?_, ?_⟩
  · rw [show (c.finish a t result).bench.worker.task = t from endPass_task _ _ _ _ _]
    exact h.keeps a _ hu
  · exact fun a' x' hu' => absurd hu'.symm (Option.some_ne_none _)
  · exact fun a' x' hu' => absurd hu'.symm (Option.some_ne_none _)
  · exact fun a' x' _ hu' => absurd hu'.symm (Option.some_ne_none _)
  · intro a' names ha' hheard hid hcalm
    cases hok : Course.isComplete result with
    | false =>
        have hcompleted : (c.finish a t result).bench.completed = c.bench.completed :=
          if_neg (by simp [hok])
        rw [hcompleted] at ha'
        exact absurd (hcalm.current.trans hgen)
          (Nat.ne_of_lt (Attends.generation_lt h.attends.sound hu ha'))
    | true =>
        have hcompleted : (c.finish a t result).bench.completed = a :: c.bench.completed :=
          if_pos hok
        rw [hcompleted, List.head?_cons, Option.some.injEq] at ha'
        subst ha'
        cases result with
        | error e => simp [Course.isComplete] at hok
        | ok complete =>
            obtain ⟨rs, hrs, hleads⟩ := h.underway a _ names hu hheard
              ⟨hcalm.current.trans hgen, hcalm.live, hcalm.untold, hcalm.noticed_eq⟩
            exact ⟨rs, hrs, hleads c.shared ((calmParty root announces rs).drift_refl _) hok⟩

theorem stop (h : Follows used root announces noticed c) (idle : c.bench.IsIdle) :
    Follows used root announces noticed c.stop := by
  have hnone : c.stop.bench.worker.session = none := c.bench.worker.close_session c.store
  have hu : ∀ a x, c.stop.bench.underway = some (a, x) → False := by
    intro a x hu
    simp [Course.stop, idle.1] at hu
  refine ⟨h.attends.stop idle, h.noticed_le, h.desired_used, ?_, fun a x hu' => (hu a x hu').elim,
    fun a x hu' => (hu a x hu').elim, fun a x _ hu' => (hu a x hu').elim, ?_⟩
  · rw [show c.stop.bench.worker.task = c.bench.worker.task from
      c.bench.worker.close_task c.store]
    exact h.survey
  · intro a names _ _ hid
    cases hnone.symm.trans hid

theorem move (h : Follows used root announces noticed c) (ht : c.store.Tidy used root)
    (hroot : Path.IsDirectory root) (hd : Publisher.Distinct used) (hm : Course.Move c d) :
    ∃ noticed', Follows used root announces noticed' d := by
  cases hm with
  | trigger => exact ⟨noticed, h.trigger⟩
  | tick idle => exact h.tick hroot
  | work underway step => exact ⟨noticed, h.work ht underway step hroot hd⟩
  | finish underway => exact ⟨noticed, h.finish underway⟩
  | stop idle => exact ⟨noticed, h.stop idle⟩

/-- What a move does to the store. -/
theorem byDeeds (h : Follows used root announces noticed c) (hm : Course.Move c d) :
    ByDeeds (Owns (c.bench.worker.Mine c.store) (terms used root).asks) c.store d.store :=
  hm.byDeeds h.attends.sound fun a x _ _ _ _ hu hstep => (h.keeps a x hu).asks_of_step hstep

theorem tidy (h : Follows used root announces noticed c) (ht : c.store.Tidy used root)
    (hm : Course.Move c d) : d.store.Tidy used root := by
  refine ht.byDeeds (h.byDeeds hm) fun deed hdeed => ?_
  cases deed with
  | serve id r => exact suits_of_asks hdeed.2 id
  | put | failNext | delayReads => exact hdeed.elim
  | _ => trivial

end Follows

end Client

end ServiceRegistry
