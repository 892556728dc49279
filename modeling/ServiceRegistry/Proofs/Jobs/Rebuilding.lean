import ServiceRegistry.Proofs.Jobs.PathBuilding
import ServiceRegistry.Proofs.Script.Turns

/-! # Building a path again

`PathBuild.Account` says what the turns of a build are, whatever others do in between: each node on
the way is asked for, and made if it is missing. From it follows what may go wrong and what may not
when a build is cut off or repeated (`PathBuild.isRepeatable`). An attempt never touches a node that
is there; what it leaves undone a later one does, and after one that succeeded nothing is left to
do, unless an injected failure said of a missing node that it is there.

Such a failure counts as success, since the node can have been made by someone else in the meantime.
So under these failures a repeated build can make a node, and one that resumes can miss a node
(`PathBuild.repeated_build_differs`). -/

namespace ServiceRegistry.Jobs.PathBuild

open Store Script Script.Turns

variable {κ : Type} {id : SessionId} {path p : String} {paths : List String} {ts : List Turn}
  {out : Except StoreError Bool}

/-! ### The account of a build -/

/-- The turns of a build that has ended: each path is asked for, and if there is no node, one is to
be made. -/
inductive Account : List String → List Turn → Except StoreError Bool → Prop
  | nil : Account [] [] (.ok true)
  | refused (p : String) (paths : List String) (s : Store) (e : StoreError) :
      Account (p :: paths) [⟨s, ⟨.probe p, .error e⟩⟩] (.error e)
  | found {paths : List String} {ts : List Turn} {out : Except StoreError Bool} (p : String)
      (s : Store) (rest : Account paths ts out) :
      Account (p :: paths) (⟨s, ⟨.probe p, .ok true⟩⟩ :: ts) out
  | broken (p : String) (paths : List String) (s s' : Store) (e : StoreError) :
      Account (p :: paths)
        [⟨s, ⟨.probe p, .ok false⟩⟩, ⟨s', ⟨.create p [] .persistent, .error e⟩⟩] (.error e)
  | made {paths : List String} {ts : List Turn} {out : Except StoreError Bool} (p : String)
      (s s' : Store) (answer : Except StoreError Unit)
      (hanswer : ∀ e, answer = .error e → e.isNodeExists = true) (rest : Account paths ts out) :
      Account (p :: paths)
        (⟨s, ⟨.probe p, .ok false⟩⟩ :: ⟨s', ⟨.create p [] .persistent, answer⟩⟩ :: ts) out

theorem leads_account (acts : Store × κ → Store × κ → Prop) (paths : List String) (s : Store)
    (y : κ) (ts₀ : List Turn) :
    (build paths).Leads (Company.party acts id)
      (fun out m => ∃ ts, m.turns = ts₀ ++ ts ∧ Account paths ts out) ⟨s, y, ts₀⟩ := by
  induction paths generalizing s y ts₀ with
  | nil => exact fun m hm => ⟨[], by rw [hm.2, List.append_nil], .nil⟩
  | cons p paths ih =>
      rintro ⟨s₁, y₁, ts₀⟩ ⟨-, rfl⟩ answer _ ⟨-, rfl⟩
      match answer with
      | .error e => exact fun m hm => ⟨_, hm.2, .refused p paths s₁ e⟩
      | .ok true =>
          refine (ih _ _ _).mono ?_
          rintro out m ⟨ts, hts, hrest⟩
          exact ⟨_, by rw [hts, List.append_assoc]; rfl, .found p s₁ hrest⟩
      | .ok false =>
          rintro ⟨s₂, y₂, _⟩ ⟨-, rfl⟩ answer _ ⟨-, rfl⟩
          have hgo : (∀ e, answer = .error e → e.isNodeExists = true) →
              (build paths).Leads (Company.party acts id)
                (fun out m => ∃ ts, m.turns = ts₀ ++ ts ∧ Account (p :: paths) ts out)
                ⟨(s₂.serve id (.create p [] .persistent)).2, y₂,
                  ts₀ ++ [⟨s₁, ⟨.probe p, .ok false⟩⟩] ++
                    [⟨s₂, ⟨.create p [] .persistent, answer⟩⟩]⟩ := by
            intro hanswer
            refine (ih _ _ _).mono ?_
            rintro out m ⟨ts, hts, hrest⟩
            exact ⟨_, by rw [hts, List.append_assoc, List.append_assoc]; rfl,
              .made p s₁ s₂ answer hanswer hrest⟩
          match answer with
          | .ok () => exact hgo fun e he => by cases he
          | .error e =>
              dsimp only
              split
              · next he =>
                exact hgo fun e' he' => by
                  cases he'
                  exact he
              · exact fun m hm => ⟨_, by rw [hm.2, List.append_assoc]; rfl, .broken p paths s₁ s₂ e⟩

namespace Account

theorem targets_sublist (h : Account paths ts out) : (targets ts).Sublist paths := by
  induction h with
  | nil => exact .slnil
  | refused => exact List.nil_sublist _
  | found p s _ ih => exact ih.cons p
  | broken p paths => exact (List.nil_sublist paths).cons_cons p
  | made p s s' answer _ _ ih => exact ih.cons_cons p

theorem request_eq (h : Account paths ts out) :
    ∀ t ∈ ts, ∃ p ∈ paths, t.exchange.request = .probe p ∨
      t.exchange.request = .create p [] .persistent := by
  induction h with
  | nil => simp
  | refused => simp
  | broken => simp
  | found p s _ ih =>
      intro t ht
      rcases List.mem_cons.mp ht with rfl | ht
      · exact ⟨p, List.mem_cons_self, .inl rfl⟩
      · obtain ⟨q, hq, hr⟩ := ih t ht
        exact ⟨q, List.mem_cons_of_mem p hq, hr⟩
  | made p s s' answer _ _ ih =>
      intro t ht
      rcases List.mem_cons.mp ht with rfl | ht
      · exact ⟨p, List.mem_cons_self, .inl rfl⟩
      rcases List.mem_cons.mp ht with rfl | ht
      · exact ⟨p, List.mem_cons_self, .inr rfl⟩
      · obtain ⟨q, hq, hr⟩ := ih t ht
        exact ⟨q, List.mem_cons_of_mem p hq, hr⟩

/-- A build that succeeded found a node at each path, or was told that it made one or that there is
one. -/
theorem mem_of_ok (h : Account paths ts out) (hout : out = .ok true) (hp : p ∈ paths) :
    ∃ s, ⟨s, ⟨.probe p, .ok true⟩⟩ ∈ ts ∨
      ∃ answer, ⟨s, ⟨.create p [] .persistent, answer⟩⟩ ∈ ts ∧
        ∀ e, answer = .error e → e.isNodeExists = true := by
  induction h with
  | nil => cases hp
  | refused => cases hout
  | broken => cases hout
  | found q s _ ih =>
      rcases List.mem_cons.mp hp with rfl | hp
      · exact ⟨s, .inl List.mem_cons_self⟩
      · obtain ⟨s, ht | ⟨answer, ht, hanswer⟩⟩ := ih hout hp
        · exact ⟨s, .inl (List.mem_cons_of_mem _ ht)⟩
        · exact ⟨s, .inr ⟨answer, List.mem_cons_of_mem _ ht, hanswer⟩⟩
  | made q s s' answer hanswer _ ih =>
      rcases List.mem_cons.mp hp with rfl | hp
      · exact ⟨s', .inr ⟨answer, List.mem_cons_of_mem _ List.mem_cons_self, hanswer⟩⟩
      · obtain ⟨s, ht | ⟨answer, ht, hanswer⟩⟩ := ih hout hp
        · exact ⟨s, .inl (List.mem_cons_of_mem _ (List.mem_cons_of_mem _ ht))⟩
        · exact ⟨s, .inr ⟨answer, List.mem_cons_of_mem _ (List.mem_cons_of_mem _ ht), hanswer⟩⟩

/-- A node is to be made right after none was found. -/
theorem exists_probe (h : Account paths ts out) (hp : p ∈ targets ts) :
    ∃ s s' answer ts₁ ts₂, ts = ts₁ ++ ⟨s, ⟨.probe p, .ok false⟩⟩ ::
      ⟨s', ⟨.create p [] .persistent, answer⟩⟩ :: ts₂ := by
  induction h with
  | nil => cases hp
  | refused => cases hp
  | broken q paths s s' e =>
      obtain rfl := List.mem_singleton.mp hp
      exact ⟨s, s', _, [], [], rfl⟩
  | found q s _ ih =>
      obtain ⟨s₁, s₂, answer, ts₁, ts₂, rfl⟩ := ih hp
      exact ⟨s₁, s₂, answer, _ :: ts₁, ts₂, rfl⟩
  | @made paths ts _ q s s' answer _ _ ih =>
      rcases List.mem_cons.mp hp with rfl | hp
      · exact ⟨s, s', answer, [], ts, rfl⟩
      · obtain ⟨s₁, s₂, answer, ts₁, ts₂, rfl⟩ := ih hp
        exact ⟨s₁, s₂, answer, _ :: _ :: ts₁, ts₂, rfl⟩

end Account

/-! ### What a turn does -/

/-- The turn asks for the node, or is to make it, empty and persistent. It leaves the nodes as they
are, unless the node is missing and is made. -/
def IsTurnAt (id : SessionId) (p : String) (t : Turn) : Prop :=
  t.exchange.request = .probe p ∧ (t.result id).nodes = t.store.nodes ∨
    t.exchange.request = .create p [] .persistent ∧
      ((t.result id).nodes = t.store.nodes ∨
        t.store.has p = false ∧ (t.result id).nodes = t.store.nodes.insert p ⟨[], none⟩)

/-- The node was missing and was to be made, but an injected failure said that it is there. -/
def IsDenied (ts : List Turn) (p : String) : Prop :=
  ∃ s, ⟨s, ⟨.create p [] .persistent, .error ⟨.nodeExists, p⟩⟩⟩ ∈ ts ∧ s.has p = false ∧
    (.create, .nodeExists) ∈ s.failures

theorem nodes_serve_probe (s : Store) (id : SessionId) (p : String) :
    (s.serve id (.probe p)).2.nodes = s.nodes := by
  rcases s.probe_cases id p with ⟨_, s', h, ha⟩ | ⟨s', h, ha, -⟩
  all_goals rw [serve, h, ha.nodes_eq]

theorem serve_create_cases (s : Store) (id : SessionId) (p : String) :
    (∃ code, (s.serve id (.create p [] .persistent)).1 = .error ⟨code, p⟩ ∧
      (s.serve id (.create p [] .persistent)).2.nodes = s.nodes ∧
      (code = .nodeExists → s.has p = true ∨ (.create, .nodeExists) ∈ s.failures)) ∨
    ((s.serve id (.create p [] .persistent)).1 = .ok () ∧ s.has p = false ∧
      (s.serve id (.create p [] .persistent)).2.nodes = s.nodes.insert p ⟨[], none⟩) := by
  rcases s.create_cases id p [] .persistent with ⟨code, s', h, ha, hwhy⟩ | ⟨s', h, ha, hhas, -⟩
  · refine .inl ⟨code, by rw [serve, h], by rw [serve, h, ha.nodes_eq], ?_⟩
    rintro rfl
    rcases hwhy with (⟨-, hcode⟩ | ⟨-, -, -, hcode⟩ | hinjected) | ⟨-, hhas⟩ | ⟨hcode, -⟩
    · cases hcode
    · cases hcode
    · exact .inr hinjected
    · exact .inl hhas
    · cases hcode
  · exact .inr ⟨by rw [serve, h], hhas, by rw [serve, h, nodes_grow, ha.nodes_eq]; rfl⟩

theorem isTurnAt_of_request {t : Turn} (h : t.exchange.request = .probe p ∨
    t.exchange.request = .create p [] .persistent) : IsTurnAt id p t := by
  rcases h with h | h
  · refine .inl ⟨h, ?_⟩
    rw [Turn.result, h, nodes_serve_probe]
  · refine .inr ⟨h, ?_⟩
    rw [Turn.result, h]
    rcases serve_create_cases t.store id p with ⟨_, -, hnodes, -⟩ | ⟨-, hhas, hnodes⟩
    · exact .inl hnodes
    · exact .inr ⟨hhas, hnodes⟩

/-! ### Building amid others who spare the session -/

/-- Others leave the session ready, and no node goes that is there. -/
def SparesSession (acts : Store × κ → Store × κ → Prop) (id : SessionId) : Prop :=
  ∀ c c', acts c c' → (c.1.IsReady id → c'.1.IsReady id) ∧ ∀ p, c.1.has p = true → c'.1.has p = true

theorem SparesSession.drift {acts : Store × κ → Store × κ → Prop} (h : SparesSession acts id)
    {c c' : Store × κ} (hdrift : Relation.ReflTransGen acts c c') :
    (c.1.IsReady id → c'.1.IsReady id) ∧ ∀ p, c.1.has p = true → c'.1.has p = true := by
  induction hdrift with
  | refl => exact ⟨fun hready => hready, fun _ hp => hp⟩
  | tail _ hact ih =>
      obtain ⟨hready, hkept⟩ := h _ _ hact
      exact ⟨fun h => hready (ih.1 h), fun p hp => hkept p (ih.2 p hp)⟩

/-- A build whose first node has a parent, or belongs below the root, makes one after the other. -/
theorem leads_build_of_spares {acts : Store × κ → Store × κ → Prop} (hacts : SparesSession acts id)
    {elements : List String} (hnames : ∀ e ∈ elements, Path.IsName e) {above : String}
    {m : Company κ} (h : m.store.IsReady id) (habove : above = "" ∨ m.store.has above = true) :
    (build (Path.chain.go above elements)).Leads (Company.party acts id)
      (fun out _ => out = .ok true) m := by
  induction elements generalizing above m with
  | nil => exact fun _ _ => rfl
  | cons e elements ih =>
      have hname := hnames e List.mem_cons_self
      have hrest : ∀ {m : Company κ}, m.store.IsReady id →
          m.store.has (Path.child above e) = true →
          (build (Path.chain.go (Path.child above e) elements)).Leads (Company.party acts id)
            (fun out _ => out = .ok true) m := fun hready hthere =>
        ih (fun e' he' => hnames e' (List.mem_cons_of_mem e he')) hready (.inr hthere)
      have hparent : ∀ s : Store, (above = "" ∨ s.has above = true) →
          s.has (Path.parent (Path.child above e)) = true := by
        rintro s habove
        by_cases htop : above = ""
        · rw [htop, Path.parent_child_top hname]
          rfl
        · rw [Path.parent_child htop hname]
          exact habove.resolve_left htop
      rintro m₁ hm₁ answer _ ⟨rfl, rfl⟩
      obtain ⟨hready₁, hkept₁⟩ := hacts.drift hm₁.1
      replace hready₁ := hready₁ h
      simp only [serve, hready₁.probe_eq]
      have hready₁' : (m₁.store.count .exists).IsReady id := (alike_count _).isReady hready₁
      cases hthere : m₁.store.has (Path.child above e) with
      | true => exact hrest hready₁' hthere
      | false =>
          rintro m₂ hm₂ answer _ ⟨rfl, rfl⟩
          obtain ⟨hready₂, hkept₂⟩ := hacts.drift hm₂.1
          replace hready₂ := hready₂ hready₁'
          have habove₂ := hparent m₂.store
            (habove.imp_right fun habove => hkept₂ _ (hkept₁ _ habove))
          simp only [serve, hready₂.create_eq, habove₂]
          have hready₂' : (m₂.store.count .create).IsReady id := (alike_count _).isReady hready₂
          cases hthere₂ : m₂.store.has (Path.child above e) with
          | true => exact hrest hready₂' hthere₂
          | false =>
              exact hrest (hready₂'.grow _ _) ((has_grow _ _ _).mpr (.inr rfl))

/-! ### Attempts -/

/-- An attempt of the job for a path on a session. -/
abbrev trial (path : String) (id : SessionId) : Script Unit (PathBuild × Except StoreError Bool) :=
  Job.attempt (PathBuild.mk path) id

section Attempts

variable {acts : Store × Unit → Store × Unit → Prop} {c c' : Store × Unit} {j : PathBuild}
  {x : Script Unit (PathBuild × Except StoreError Bool)}

theorem account_of_end (h : (trial path id).Turns acts id c ts (.done (j, out)) c') :
    j = ⟨path⟩ ∧ Account (Path.chain (Path.visible path)) ts out := by
  have hleads : (trial path id).Leads (Company.party acts id)
      (fun result m =>
        result.1 = ⟨path⟩ ∧ Account (Path.chain (Path.visible path)) m.turns result.2)
      ⟨c.1, c.2, []⟩ := by
    refine leads_bind ((leads_account acts _ c.1 c.2 []).mono fun out m haccount => ?_)
    rintro m' ⟨-, hturns⟩
    obtain ⟨ts, hts, haccount⟩ := haccount
    rw [hturns, hts]
    exact ⟨rfl, haccount⟩
  exact hleads.turns h rfl

theorem prompt_trial (path : String) (id : SessionId) : (trial path id).Prompt :=
  prompt_bind (prompt_build _) fun _ => trivial

/-- What was cut off can be brought to an end. -/
theorem exists_account (h : (trial path id).Turns acts id c ts x c') :
    ∃ ts' j out c'', (trial path id).Turns acts id c (ts ++ ts') (.done (j, out)) c'' ∧
      Account (Path.chain (Path.visible path)) (ts ++ ts') out := by
  obtain ⟨⟨j, out⟩, ts', c'', hrest⟩ := h.exists_end (prompt_trial path id)
  exact ⟨ts', j, out, c'', h.trans hrest, (account_of_end (h.trans hrest)).2⟩

/-- Whatever others do: the nodes are tried from the top down, and nothing else is done. -/
theorem isTurnAt_of_attempt (h : (trial path id).Turns acts id c ts x c') :
    (targets ts).Pairwise Path.IsAbove ∧
      ∀ t ∈ ts, ∃ p, Path.IsOnTheWay path p ∧ IsTurnAt id p t := by
  obtain ⟨ts', j, out, c'', -, haccount⟩ := exists_account h
  constructor
  · refine Path.pairwise_chain_go.sublist (.trans ?_ haccount.targets_sublist)
    rw [targets, targets, List.filterMap_append]
    exact List.sublist_append_left _ _
  · intro t ht
    obtain ⟨p, hp, hr⟩ := haccount.request_eq t (List.mem_append_left _ ht)
    exact ⟨p, Path.mem_chain_iff.mp hp, isTurnAt_of_request hr⟩

/-! ### After an attempt that succeeded -/

theorem IsTurnAt.has {q : String} {t : Turn} (h : IsTurnAt id q t) (hp : t.store.has p = true) :
    (t.result id).has p = true := by
  rcases h with ⟨-, hnodes⟩ | ⟨-, hnodes | ⟨-, hnodes⟩⟩
  · rwa [has_congr hnodes]
  · rwa [has_congr hnodes]
  · rw [Store.has, hnodes]
    exact (has_grow t.store q ⟨[], none⟩).mpr (.inl hp)

/-- If no node goes that is there, each node on the way is there, or it was denied. -/
theorem has_of_end (hacts : ∀ c c', acts c c' → ∀ p, c.1.has p = true → c'.1.has p = true)
    (h : (trial path id).Turns acts id c ts (.done (j, .ok true)) c')
    (hp : Path.IsOnTheWay path p) : c'.1.has p = true ∨ IsDenied ts p := by
  obtain ⟨s, ht⟩ := (account_of_end h).2.mem_of_ok rfl (Path.mem_chain_iff.mpr hp)
  have hrest : ∀ t ∈ ts, (t.result id).has p = true → c'.1.has p = true := by
    intro t ht hresult
    obtain ⟨ts₁, ts₂, hts⟩ := List.append_of_mem ht
    subst hts
    obtain ⟨x₁, x₂, y, -, hafter⟩ := h.split
    refine hafter.invariant (P := fun s => s.has p = true) (fun c c' hact => hacts c c' hact p)
      (fun t' ht' => ?_) hresult
    obtain ⟨q, -, hq⟩ := (isTurnAt_of_attempt h).2 t'
      (List.mem_append_right _ (List.mem_cons_of_mem _ ht'))
    exact hq.has
  rcases ht with ht | ⟨answer, ht, hanswer⟩
  · refine .inl (hrest _ ht ?_)
    have heq := h.answer_eq ht
    rcases s.probe_cases id p with ⟨_, s', hs, -⟩ | ⟨s', hs, -⟩
    · rw [serve, hs] at heq
      cases heq
    · rw [serve, hs] at heq
      rw [Turn.result, has_congr (nodes_serve_probe s id p)]
      exact (Except.ok.inj heq).symm
  · have heq := h.answer_eq ht
    rcases serve_create_cases s id p with ⟨code, hs, hnodes, hwhy⟩ | ⟨-, -, hnodes⟩
    · rw [hs] at heq
      subst heq
      obtain rfl : code = .nodeExists := by simpa [StoreError.isNodeExists] using hanswer _ rfl
      cases hhas : s.has p with
      | true => exact .inl (hrest _ ht (by rwa [Turn.result, has_congr hnodes]))
      | false =>
          rw [hhas] at hwhy
          exact .inr ⟨s, ht, hhas, (hwhy rfl).resolve_left Bool.false_ne_true⟩
    · refine .inl (hrest _ ht ?_)
      rw [Turn.result, Store.has, hnodes]
      exact (has_grow s p ⟨[], none⟩).mpr (.inr rfl)

/-! ### On a session that nothing hinders -/

theorem eq_ok_of_end (hacts : SparesSession acts id) (hready : c.1.IsReady id)
    (h : (trial path id).Turns acts id c ts (.done (j, out)) c') : out = .ok true := by
  have hleads : (trial path id).Leads (Company.party acts id) (fun result _ => result.2 = .ok true)
      ⟨c.1, c.2, []⟩ := by
    refine leads_bind ((leads_build_of_spares hacts (fun e he => (Path.visible_spec he).1) hready
      (.inl rfl)).mono ?_)
    rintro _ m rfl _ -
    rfl
  exact hleads.turns h rfl

theorem exists_run_of_isReady (path : String) {s : Store} (h : s.IsReady id) (now : Nat)
    (ids : IdSource) :
    ∃ scene, attempted path id now s ids = (.finished (⟨path⟩, .ok true), scene) := by
  obtain ⟨⟨j, out⟩, scene, hrun⟩ := (prompt_trial path id).exists_run id now ⟨s, (), ids⟩
  obtain ⟨ts, -, hturns⟩ : ∃ ts, _ ∧ (trial path id).Turns (fun _ _ => False) id (s, ()) ts _ _ :=
    (steps_run hrun).exists_turns
  obtain ⟨rfl, -⟩ := account_of_end hturns
  obtain rfl := eq_ok_of_end (fun _ _ hact => hact.elim) h hturns
  exact ⟨scene, hrun⟩

/-! ### Attempts one after the other -/

/-- Others do what leaves the nodes alone. -/
def Aside (c c' : Store × Unit) : Prop := c'.1.nodes = c.1.nodes

/-- The stores have the same nodes, but for empty ones on the way that are new in the second. -/
def GrewOnTheWay (path : String) (s s' : Store) : Prop :=
  ∀ p, s'.nodes.find? p = s.nodes.find? p ∨
    Path.IsOnTheWay path p ∧ s.nodes.find? p = none ∧ s'.nodes.find? p = some ⟨[], none⟩

/-- Any number of attempts, each of which may have failed or been cut off. -/
inductive Tried (path : String) : Store → Store → Prop
  | refl (s : Store) : Tried path s s
  | attempt {s s' s'' : Store} {id : SessionId} {ts : List Turn}
      {x : Script Unit (PathBuild × Except StoreError Bool)} (before : Tried path s s')
      (run : (trial path id).Turns Aside id (s', ()) ts x (s'', ())) : Tried path s s''

theorem find?_eq_none_of_has {s : Store} (h : s.has p = false) : s.nodes.find? p = none := by
  rw [Store.has, Bool.or_eq_false_iff] at h
  simpa [Dict.contains] using h.2

variable {s : Store}

theorem GrewOnTheWay.turn {q : String} {t : Turn} (h : GrewOnTheWay path s t.store)
    (hq : Path.IsOnTheWay path q) (ht : IsTurnAt id q t) : GrewOnTheWay path s (t.result id) := by
  intro p
  rcases ht with ⟨-, hnodes⟩ | ⟨-, hnodes | ⟨hhas, hnodes⟩⟩
  · rw [hnodes]
    exact h p
  · rw [hnodes]
    exact h p
  · rw [hnodes, Dict.find?_insert]
    split
    · next heq =>
      subst heq
      refine .inr ⟨hq, ?_, rfl⟩
      have hnone := find?_eq_none_of_has hhas
      rcases h q with heq | ⟨-, hmissing, -⟩
      · rw [← heq, hnone]
      · exact hmissing
    · exact h p

theorem grewOnTheWay_of_attempt (h : (trial path id).Turns Aside id c ts x c')
    (hg : GrewOnTheWay path s c.1) : GrewOnTheWay path s c'.1 := by
  refine h.invariant (P := GrewOnTheWay path s) ?_ ?_ hg
  · intro c₁ c₂ hact hc₁ p
    rw [hact]
    exact hc₁ p
  · intro t ht hstore
    obtain ⟨q, hq, hturn⟩ := (isTurnAt_of_attempt h).2 t ht
    exact hstore.turn hq hturn

theorem Tried.grewOnTheWay {s' : Store} (h : Tried path s s') : GrewOnTheWay path s s' := by
  induction h with
  | refl => exact fun p => .inl rfl
  | attempt _ run ih => exact grewOnTheWay_of_attempt run ih

theorem nodup_targets (h : (trial path id).Turns acts id c ts x c') : (targets ts).Nodup :=
  (isTurnAt_of_attempt h).1.imp fun habove => habove.2

theorem has_of_aside (hact : Aside c c') : c'.1.has p = c.1.has p := has_congr hact p

/-- A node that was denied is missing after the attempt. -/
theorem find?_of_isDenied (h : (trial path id).Turns Aside id c ts x c') (hp : IsDenied ts p) :
    c'.1.nodes.find? p = none := by
  obtain ⟨s, ht, hhas, -⟩ := hp
  have heq := h.answer_eq ht
  obtain ⟨ts₁, ts₂, rfl⟩ := List.append_of_mem ht
  have hnodup := nodup_targets h
  obtain ⟨x₁, x₂, y, -, hafter⟩ := h.split
  have hlater : p ∉ targets ts₂ := by
    rw [targets, List.filterMap_append, List.filterMap_cons] at hnodup
    exact (List.nodup_cons.mp (List.nodup_append.mp hnodup).2.1).1
  rw [hafter.find?_eq (fun _ _ hact => hact) hlater]
  rcases serve_create_cases s id p with ⟨code, -, hnodes, -⟩ | ⟨hok, -⟩
  · rw [Turn.result, hnodes]
    exact find?_eq_none_of_has hhas
  · rw [hok] at heq
    cases heq

/-- After any attempts, one that succeeds leaves the nodes that were there, and on the way those
that it was not denied. -/
theorem find?_of_end (hs : GrewOnTheWay path s c.1)
    (h : (trial path id).Turns Aside id c ts (.done (j, .ok true)) c') (p : String) :
    (Path.IsOnTheWay path p ∧ ¬IsDenied ts p →
      c'.1.nodes.find? p = some ((s.nodes.find? p).getD ⟨[], none⟩)) ∧
    (¬(Path.IsOnTheWay path p ∧ ¬IsDenied ts p) →
      c'.1.nodes.find? p = s.nodes.find? p) := by
  have hgrew := grewOnTheWay_of_attempt h hs p
  constructor
  · rintro ⟨hway, hdenied⟩
    have hhas : c'.1.has p = true :=
      (has_of_end (fun _ _ hact p hp => (has_of_aside hact).trans hp) h hway).resolve_right hdenied
    obtain ⟨node, hnode⟩ : ∃ node, c'.1.nodes.find? p = some node := by
      rw [Store.has, Bool.or_eq_true, decide_eq_true_eq] at hhas
      exact Option.isSome_iff_exists.mp (hhas.resolve_left hway.ne_root)
    rcases hgrew with heq | ⟨-, hmissing, hnew⟩
    · rw [← heq, hnode]
      rfl
    · rw [hmissing, hnew]
      rfl
  · intro hnot
    rcases hgrew with heq | ⟨hway, -, hnew⟩
    · exact heq
    · rw [find?_of_isDenied h (by_contra fun hdenied => hnot ⟨hway, hdenied⟩)] at hnew
      cases hnew

/-- Where an attempt is to make a node, there was none at its start. -/
theorem has_of_mem_targets (h : (trial path id).Turns Aside id c ts x c') (hp : p ∈ targets ts) :
    c.1.has p = false := by
  obtain ⟨ts', j, out, c'', hend, haccount⟩ := exists_account h
  have hp' : p ∈ targets (ts ++ ts') := by
    rw [targets, List.filterMap_append]
    exact List.mem_append_left _ hp
  obtain ⟨s, s', answer, ts₁, ts₂, hts⟩ := haccount.exists_probe hp'
  rw [hts] at hend
  have heq := hend.answer_eq (List.mem_append_right _ List.mem_cons_self)
  have hnodup := nodup_targets hend
  obtain ⟨x₁, x₂, y, hbefore, -⟩ := hend.split
  have hfirst : p ∉ targets ts₁ := fun hmem => by
    rw [targets, List.filterMap_append] at hnodup
    exact (List.nodup_append.mp hnodup).2.2 p hmem p List.mem_cons_self rfl
  have hsame := hbefore.find?_eq (fun _ _ hact => hact) hfirst
  have hmissing : s.has p = false := by
    rcases s.probe_cases id p with ⟨_, s', hs, -⟩ | ⟨s', hs, -⟩
    · rw [serve, hs] at heq
      cases heq
    · rw [serve, hs] at heq
      exact (Except.ok.inj heq).symm
  rw [Store.has, Dict.contains, hsame] at hmissing
  exact hmissing

end Attempts

/-! ### Repeating a build -/

/-- Building a path is safe to repeat and to cut off. -/
structure IsRepeatable (path : String) : Prop where
  /-- Whatever others do, the nodes on the way are tried from the top down; a missing one may be
  made, and all else stays as it is. -/
  turns : ∀ acts id c ts x c', (trial path id).Turns acts id c ts x c' →
    (targets ts).Pairwise Path.IsAbove ∧ ∀ t ∈ ts, ∃ p, Path.IsOnTheWay path p ∧ IsTurnAt id p t
  /-- After success every node on the way is there, but for those denied by an injected failure. -/
  complete : ∀ acts id c ts j c',
    (∀ c c', acts c c' → ∀ p, c.1.has p = true → c'.1.has p = true) →
    (trial path id).Turns acts id c ts (.done (j, .ok true)) c' →
    ∀ p, Path.IsOnTheWay path p → c'.1.has p = true ∨ IsDenied ts p
  /-- On a live connected session without injected failures, an attempt ends and succeeds. -/
  succeeds : ∀ id s now ids, s.IsReady id →
    ∃ scene, attempted path id now s ids = (.finished (⟨path⟩, .ok true), scene)
  /-- It does so too when others race it, as long as they spare the session and drop no node. -/
  succeeds_amid : ∀ acts id c ts j out c', SparesSession acts id → c.1.IsReady id →
    (trial path id).Turns acts id c ts (.done (j, out)) c' → out = .ok true
  /-- Success after attempts that failed or were cut off comes to what success at once comes to, if
  the same nodes are denied in both. -/
  resumes : ∀ s s₁, Tried path s s₁ →
    ∀ id ts j s₂, (trial path id).Turns Aside id (s₁, ()) ts (.done (j, .ok true)) (s₂, ()) →
    ∀ id' ts' j' s', (trial path id').Turns Aside id' (s, ()) ts' (.done (j', .ok true)) (s', ()) →
    (∀ p, IsDenied ts p ↔ IsDenied ts' p) → s₂.nodes = s'.nodes
  /-- Right after success an attempt is to make at most what was denied. -/
  idle : ∀ id s ts j s₁, (trial path id).Turns Aside id (s, ()) ts (.done (j, .ok true)) (s₁, ()) →
    ∀ id' ts' x s₂, (trial path id').Turns Aside id' (s₁, ()) ts' x (s₂, ()) →
    ∀ p ∈ targets ts', IsDenied ts p

theorem isRepeatable (path : String) : IsRepeatable path where
  turns _ _ _ _ _ _ h := isTurnAt_of_attempt h
  complete _ _ _ _ _ _ hacts h _ hp := has_of_end hacts h hp
  succeeds _ _ now ids h := exists_run_of_isReady path h now ids
  succeeds_amid _ _ _ _ _ _ _ hacts hready h := eq_ok_of_end hacts hready h
  resumes s s₁ htried id ts j s₂ h id' ts' j' s' h' hdenied := by
    refine Dict.ext_find? fun p => ?_
    obtain ⟨hmade, hleft⟩ := find?_of_end htried.grewOnTheWay h p
    obtain ⟨hmade', hleft'⟩ := find?_of_end (Tried.refl s).grewOnTheWay h' p
    by_cases hp : Path.IsOnTheWay path p ∧ ¬IsDenied ts p
    · rw [hmade hp, hmade' ⟨hp.1, fun hd => hp.2 ((hdenied p).mpr hd)⟩]
    · rw [hleft hp, hleft' fun hp' => hp ⟨hp'.1, fun hd => hp'.2 ((hdenied p).mp hd)⟩]
  idle id s ts j s₁ h id' ts' x s₂ h' p hp := by
    obtain ⟨t, ht, htarget⟩ := List.mem_filterMap.mp hp
    obtain ⟨-, hturns⟩ := isTurnAt_of_attempt h'
    obtain ⟨q, hway, hq⟩ := hturns t ht
    obtain rfl : q = p := by
      rcases hq with ⟨hr, -⟩ | ⟨hr, -⟩
      all_goals
        rw [hr] at htarget
        cases htarget
      rfl
    refine (has_of_end (fun _ _ hact p hp => (has_of_aside hact).trans hp) h hway).resolve_left ?_
    rw [has_of_mem_targets h' hp]
    exact Bool.false_ne_true

/-- An attempt that is cut off after it made the first of two nodes. -/
theorem isRepeatable_of_cut :
    let s := ({} : Store).connect.2
    let cut := ((s.serve 1 (.probe "/a")).2.serve 1 (.create "/a" [] .persistent)).2
    ∃ later once, attempted "/a/b" 1 0 cut {} = (.finished (⟨"/a/b"⟩, .ok true), later) ∧
      attempted "/a/b" 1 0 s {} = (.finished (⟨"/a/b"⟩, .ok true), once) ∧
      later.store.nodes = once.store.nodes := by
  intro s cut
  have h := isRepeatable "/a/b"
  have hready : s.IsReady 1 := ⟨⟨⟨1, true⟩, rfl, rfl⟩, fun f hf => by cases hf⟩
  obtain ⟨once, honce⟩ := h.succeeds 1 s 0 {} hready
  obtain ⟨later, hlater⟩ := h.succeeds 1 cut 0 {} ((hready.serve 1 _).serve 1 _)
  have hcut : (trial "/a/b" 1).Turns Aside 1 (s, ()) _ _ (cut, ()) :=
    (Turns.call (.probe "/a") _ s ()).trans (Turns.call (.create "/a" [] .persistent) _ _ ())
  obtain ⟨ts, hts, hturns⟩ := (steps_run hlater).exists_turns
  obtain ⟨ts', hts', hturns'⟩ := (steps_run honce).exists_turns
  refine ⟨later, once, hlater, honce, ?_⟩
  refine h.resumes s cut (.attempt (.refl s) hcut) 1 ts _ _ hturns 1 ts' _ _ hturns' fun p => ?_
  -- Neither of the two attempts was told that a node is there.
  refine iff_of_false ?_ ?_
  · rintro ⟨s', ht, -⟩
    have hmem := List.mem_map_of_mem (f := (·.exchange)) ht
    rw [hts] at hmem
    rcases hmem with _ | ⟨_, _ | ⟨_, _ | ⟨_, hmem⟩⟩⟩
    cases hmem
  · rintro ⟨s', ht, -⟩
    have hmem := List.mem_map_of_mem (f := (·.exchange)) ht
    rw [hts'] at hmem
    rcases hmem with _ | ⟨_, _ | ⟨_, _ | ⟨_, _ | ⟨_, hmem⟩⟩⟩⟩
    cases hmem

/-- Under injected failures that say that a node is there, an attempt right after one that succeeded
makes a node; and success after a failed attempt does not make the node that success at once makes.
-/
theorem repeated_build_differs :
    let s := ({} : Store).connect.2
    (∃ scene, attempted "/a" 1 0 (s.failNext .create .nodeExists) {} =
        (.finished (⟨"/a"⟩, .ok true), scene) ∧
      (trial "/a" 1).heard 1 0 scene =
        [⟨.probe "/a", .ok false⟩, ⟨.create "/a" [] .persistent, .ok ()⟩]) ∧
    ∃ failed later once,
      attempted "/a" 1 0 (s.failNext .exists .operationTimeout) {} =
        (.finished (⟨"/a"⟩, .error ⟨.operationTimeout, "/a"⟩), failed) ∧
      attempted "/a" 1 0 (failed.store.failNext .create .nodeExists) {} =
        (.finished (⟨"/a"⟩, .ok true), later) ∧
      attempted "/a" 1 0 s {} = (.finished (⟨"/a"⟩, .ok true), once) ∧
      later.store.has "/a" = false ∧ once.store.has "/a" = true :=
  ⟨⟨_, rfl, rfl⟩, _, _, _, rfl, rfl, rfl, by decide, by decide⟩

end ServiceRegistry.Jobs.PathBuild
