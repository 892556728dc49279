import ServiceRegistry.Jobs.PathBuild
import ServiceRegistry.Proofs.Script.Answers
import ServiceRegistry.Proofs.Store.Chains

/-! # What building a path makes

A build that succeeds leaves just the nodes on its way in addition to those that were there
(`PathBuild.leads_build`), and on a session that nothing hinders it succeeds
(`PathBuild.leads_build_of_isReady`). The way goes along the elements of the path that are not
blank. So it comes by the path itself exactly if the path is tidy, and the node of any other path is
there after the build only if it was before (`PathBuild.built_path_is_there_iff`). -/

namespace ServiceRegistry.Jobs.PathBuild

open Store

variable {κ : Type} {id : SessionId} {s : Store} {y : κ} {es : List Exchange} {path : String}

/-! ### A build -/

theorem prompt_build (paths : List String) : (build paths : Script κ _).Prompt := by
  induction paths with
  | nil => trivial
  | cons path paths ih =>
      intro answer
      cases answer with
      | error e => trivial
      | ok there =>
          cases there with
          | true => exact ih
          | false =>
              intro answer
              cases answer with
              | ok _ => exact ih
              | error e =>
                  dsimp only
                  split
                  · exact ih
                  · trivial

/-- A build leaves aside what the session's holder shares with others. -/
theorem zoom_build {τ : Type} (get : τ → κ) (set : κ → τ → τ) (paths : List String) :
    (build paths : Script κ _).zoom get set = build paths := by
  induction paths with
  | nil => rfl
  | cons path paths ih =>
      simp only [build, Script.zoom]
      congr 1
      funext answer
      cases answer with
      | error e => rfl
      | ok there =>
          cases there with
          | true => exact ih
          | false =>
              simp only [Script.zoom]
              congr 1
              funext answer
              cases answer with
              | ok _ => exact ih
              | error e =>
                  dsimp only
                  split
                  · exact ih
                  · rfl

/-- A build that succeeds has made the nodes that were missing, and no others. -/
theorem leads_build (hs : (.create, .nodeExists) ∉ s.failures) (paths : List String) :
    (build paths).Leads (Script.Sitting.party id)
      (fun out st => out = .ok true → ∀ p, st.store.has p = true ↔ s.has p = true ∨ p ∈ paths)
      ⟨s, y, es⟩ := by
  induction paths generalizing s es with
  | nil => exact Script.leads_done fun _ p => by simp
  | cons path paths ih =>
      -- Once the first node is there, the rest of the way is left.
      have hrest : ∀ {s' : Store} {es : List Exchange}, s'.failures ⊆ s.failures →
          (∀ p, s'.has p = true ↔ s.has p = true ∨ p = path) →
          (build paths).Leads (Script.Sitting.party id)
            (fun out st => out = .ok true →
              ∀ p, st.store.has p = true ↔ s.has p = true ∨ p ∈ path :: paths) ⟨s', y, es⟩ := by
        intro s' es hsub hhas
        refine (ih fun hf => hs (hsub hf)).mono fun out st hbuilt hok p => ?_
        rw [hbuilt hok p, hhas p, List.mem_cons, or_assoc]
      refine Script.leads_probe ?_ ?_
      · exact fun code s' ha => Script.leads_done fun hok => by cases hok
      · intro s' ha
        cases hthere : s.has path with
        | true =>
            refine hrest ha.failures_subset fun p => ?_
            rw [has_congr ha.nodes_eq]
            exact (or_iff_left_of_imp fun hp => hp ▸ hthere).symm
        | false =>
            refine Script.leads_create (fun hf => hs (ha.failures_subset hf)) ?_ ?_ ?_
            · intro code s'' _ hcode
              simp only [StoreError.isNodeExists, hcode, decide_false, Bool.false_eq_true,
                ↓reduceIte]
              exact Script.leads_done fun hok => by cases hok
            · intro s'' _ hhas
              rw [has_congr ha.nodes_eq, hthere] at hhas
              cases hhas
            · intro s'' ha' _
              refine hrest (fun f hf => ha.failures_subset (ha'.failures_subset hf)) fun p => ?_
              rw [has_grow, has_congr (ha'.nodes_eq.trans ha.nodes_eq)]

/-- On a session that nothing hinders the nodes along some elements can be made: each has the node
of the elements before as its parent. -/
theorem leads_build_of_isReady (h : s.IsReady id) {elements : List String}
    (hnames : ∀ e ∈ elements, Path.IsName e) {above : String}
    (habove : above = "" ∨ s.has above = true) :
    (build (Path.chain.go above elements)).Leads (Script.Sitting.party id)
      (fun out _ => out = .ok true) ⟨s, y, es⟩ := by
  induction elements generalizing s es above with
  | nil => exact Script.leads_done rfl
  | cons e elements ih =>
      have hname := hnames e List.mem_cons_self
      have hrest : ∀ {s' : Store} {es : List Exchange}, s'.IsReady id →
          s'.has (Path.child above e) = true →
          (build (Path.chain.go (Path.child above e) elements)).Leads (Script.Sitting.party id)
            (fun out _ => out = .ok true) ⟨s', y, es⟩ := fun hready hthere =>
        ih hready (fun e' he' => hnames e' (List.mem_cons_of_mem e he')) (.inr hthere)
      have hparent : s.has (Path.parent (Path.child above e)) = true := by
        by_cases htop : above = ""
        · rw [htop, Path.parent_child_top hname]
          rfl
        · rw [Path.parent_child htop hname]
          exact habove.resolve_left htop
      refine Script.leads_probe_of_isReady h fun s' hready ha => ?_
      cases hthere : s.has (Path.child above e) with
      | true => exact hrest hready (by rwa [has_congr ha.nodes_eq])
      | false =>
          refine Script.leads_create_of_isReady hready ?_ ?_ ?_
          · intro s'' hready' ha' hhas
            exact hrest hready' (by rwa [has_congr ha'.nodes_eq])
          · intro s'' _ _ horphan
            rw [has_congr ha.nodes_eq, hparent] at horphan
            cases horphan
          · intro s'' hready' _ _
            exact hrest (hready'.grow _ _) ((has_grow _ _ _).mpr (.inr rfl))

/-- A run of a build on a session that nothing hinders. -/
theorem run_build (h : s.IsReady id) (path : String) (now : Nat) (ids : IdSource) :
    ∃ scene, (build (mk path).steps).run id now ⟨s, y, ids⟩ = (.finished (.ok true), scene) ∧
      scene.shared = y := by
  obtain ⟨result, scene, hrun⟩ :=
    (prompt_build (κ := κ) (mk path).steps).exists_run id now ⟨s, y, ids⟩
  have hleads : (build (mk path).steps : Script κ _).Leads (Script.Sitting.party id)
      (fun out _ => out = .ok true) ⟨s, y, []⟩ :=
    leads_build_of_isReady h (fun e he => (Path.visible_spec he).1) (.inl rfl)
  have hkeeps : (build (mk path).steps : Script κ _).Keeps { shared := (· = y) }
      fun _ => True := by
    rw [← zoom_build (fun _ => ()) (fun _ y => y)]
    exact Script.keeps_zoom (Script.keeps_trivial _) (fun _ _ => trivial)
      (fun _ _ hy _ _ => ⟨hy, trivial⟩) (fun _ h => h) fun _ _ h => h
  obtain rfl : result = .ok true := Script.leads_run hleads hrun
  have hreaches := hkeeps.reaches id now ⟨s, y, ids⟩ rfl
  rw [hrun] at hreaches
  exact ⟨scene, hrun, hreaches.1⟩

/-! ### The node of the path -/

/-- An attempt of the job for a path on a session, where nobody else acts in the meantime. -/
abbrev attempted (path : String) (id : SessionId) (now : Nat) (s : Store) (ids : IdSource) :
    Script.Progress Unit (PathBuild × Except StoreError Bool) × Script.Scene Unit :=
  (Job.attempt (PathBuild.mk path) id).run id now ⟨s, (), ids⟩

/-- On a session into whose calls no failure is injected, an attempt succeeds if the session is
live and connected. After one that succeeds the path has a node exactly if it is tidy or had one
before; if not, the session finds no node there, and can not follow its children. -/
theorem built_path_is_there_iff (path : String) (id : SessionId) (now : Nat) (s : Store)
    (ids : IdSource) (h : s.IsUnhindered) :
    (s.IsConnected id → ∃ scene,
      attempted path id now s ids = (.finished (⟨path⟩, .ok true), scene)) ∧
    ∀ j scene, attempted path id now s ids = (.finished (j, .ok true), scene) →
      (scene.store.has path = true ↔ Path.IsTidy path ∨ s.has path = true) ∧
      (s.IsConnected id →
        (scene.store.probe id path).1 = .ok (scene.store.has path) ∧
        (scene.store.list id path true).1 =
          if scene.store.has path then .ok (scene.store.children path)
          else .error ⟨.noNode, path⟩) := by
  have hhonest : (.create, .nodeExists) ∉ s.failures := fun hf => by cases h _ hf
  constructor
  · intro hconnected
    have hprompt : (Job.attempt (PathBuild.mk path) id).Prompt :=
      Script.prompt_bind (prompt_build _) fun _ => trivial
    obtain ⟨⟨j, result⟩, scene, hrun⟩ := hprompt.exists_run id now ⟨s, (), ids⟩
    have hleads : (Job.attempt (PathBuild.mk path) id).Leads (Script.Sitting.party id)
        (fun out _ => out = (⟨path⟩, .ok true)) ⟨s, (), []⟩ := by
      refine Script.leads_bind ((leads_build_of_isReady ⟨hconnected, h⟩
        (fun e he => (Path.visible_spec he).1) (.inl rfl)).mono ?_)
      rintro out st rfl
      exact Script.leads_done rfl
    refine ⟨scene, ?_⟩
    rw [attempted, hrun, Script.leads_run hleads hrun]
  · intro j scene hrun
    have hleads : (Job.attempt (PathBuild.mk path) id).Leads (Script.Sitting.party id)
        (fun out st => out.2 = .ok true →
          (st.store.has path = true ↔ Path.IsTidy path ∨ s.has path = true)) ⟨s, (), []⟩ := by
      refine Script.leads_bind ((leads_build hhonest _).mono fun out st hbuilt => ?_)
      refine Script.leads_done fun hok => ?_
      rw [hbuilt hok path, ← Path.mem_chain_visible_iff, or_comm]
      rfl
    refine ⟨Script.leads_run hleads hrun rfl, fun hconnected => ?_⟩
    have hstays : (Job.attempt (PathBuild.mk path) id).Leads (Script.Sitting.party id)
        (fun _ st => st.store.IsReady id) ⟨s, (), []⟩ :=
      Script.leads_isReady ⟨hconnected, h⟩ _
    have hready : scene.store.IsReady id := Script.leads_run hstays hrun
    exact ⟨congrArg Prod.fst (hready.probe_eq path), hready.list_eq path true⟩

/-- A tidy path has a node after the attempt. -/
theorem built_path_is_there_of_tidy :
    let s := ({} : Store).connect.2
    ∃ scene, attempted "/ness/srvc" 1 0 s {} = (.finished (⟨"/ness/srvc"⟩, .ok true), scene) ∧
      scene.store.has "/ness/srvc" = true := by
  have hbuilt := built_path_is_there_iff "/ness/srvc" 1 0 ({} : Store).connect.2 {} (by decide)
  obtain ⟨scene, hrun⟩ := hbuilt.1 ⟨⟨1, true⟩, rfl, rfl⟩
  exact ⟨scene, hrun, (hbuilt.2 _ scene hrun).1.mpr (.inl (by decide))⟩

/-- With a slash at the end or without one at the start the attempt succeeds, but there is no such
node. -/
theorem built_path_is_missing :
    (∃ scene, attempted "/ness/srvc/" 1 0 ({} : Store).connect.2 {} =
        (.finished (⟨"/ness/srvc/"⟩, .ok true), scene) ∧
      (scene.store.probe 1 "/ness/srvc/").1 = .ok false ∧
      (scene.store.list 1 "/ness/srvc/" true).1 = .error ⟨.noNode, "/ness/srvc/"⟩) ∧
    ∃ scene, attempted "ness/srvc" 1 0 ({} : Store).connect.2 {} =
        (.finished (⟨"ness/srvc"⟩, .ok true), scene) ∧
      (scene.store.probe 1 "ness/srvc").1 = .ok false ∧
      (scene.store.list 1 "ness/srvc" true).1 = .error ⟨.noNode, "ness/srvc"⟩ :=
  ⟨⟨_, rfl, by decide, by decide⟩, _, rfl, by decide, by decide⟩

end ServiceRegistry.Jobs.PathBuild
