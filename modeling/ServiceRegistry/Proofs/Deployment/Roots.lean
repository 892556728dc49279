import ServiceRegistry.Deployment.Operation
import ServiceRegistry.Proofs.Deployment.Advancing
import ServiceRegistry.Proofs.Jobs.PathBuilding
import ServiceRegistry.Proofs.Script.Amid

/-! # Building a root at once

The first tick of a processor's runner comes right after the processor was started. A job that is
offered before that is picked up in it, and over an empty store the build of a root succeeds in it
whatever the root is, without any time passing (`Deployment.buildRoot_of_staffed`). -/

namespace ServiceRegistry.Deployment

open Store

/-! ### The board -/

/-- A board on which a root is to be built. -/
def offered (root : String) (attempts : Nat) : JobBoard where
  waiting := [⟨0, .build ⟨root⟩, max 1 attempts⟩]
  queued := 1
  tickets := [{}]
  common := []

/-- The board after the root was built. -/
def built (root : String) : JobBoard where
  tickets := [{ state := .done, reply := .returned (.build ⟨root⟩) }]
  common := []

theorem run_work_offered {s : Store} {id : SessionId} (h : s.IsReady id) (root : String)
    (attempts now : Nat) (ids : IdSource) : ∃ r scene,
      (Jobs.Runner.work {} id).run id now ⟨s, offered root attempts, ids⟩ =
        (.finished (r, .ok true), scene) ∧ scene.shared = built root := by
  let picked : JobBoard := { offered root attempts with waiting := [], queued := 0 }
  obtain ⟨scene, hrun, hshared⟩ := Jobs.PathBuild.run_build (y := picked) h root now ids
  have hwork : (Jobs.Runner.work {} id).run id now ⟨s, offered root attempts, ids⟩ =
      ((((Jobs.PathBuild.build (Jobs.PathBuild.mk root).steps).bind fun result =>
          .done (Rehearsal.Job.build ⟨root⟩, result)).zoom Jobs.Board.common
            fun common (b : JobBoard) => { b with common }).bind _).run id now
        ⟨s, picked, ids⟩ := rfl
  rw [hwork, Script.zoom_bind, Jobs.PathBuild.zoom_build, Script.run_bind (Script.run_bind hrun)]
  refine ⟨_, _, rfl, ?_⟩
  simp only [hshared]
  rfl

/-! ### The first tick -/

section Ticking

variable (interval : Nat) (root : String) (attempts : Nat)

/-- The host of a runner that was just started. -/
abbrev newHost : Host (Jobs.Runner Rehearsal.Job) JobBoard := .make {} interval false

/-- The host when its first pass begins: the session was opened and told that it is connected. -/
def firstHost : Host (Jobs.Runner Rehearsal.Job) JobBoard :=
  { newHost interval with
    worker := { task := {}, generation := 3, ticks := 1, session := some 1, link := .connected }
    due := ⟨0 + max 1 interval, 0⟩
    activity := .idle
    hasTried := true }

/-- The store when the first pass begins. -/
def firstStore : Store := ({} : Store).connect.2.clearInbox 1

theorem isReady_firstStore : firstStore.IsReady 1 := ⟨⟨⟨1, true⟩, rfl, rfl⟩, by decide⟩

theorem tick_newHost : { newHost interval with activity := .idle }.tick {}
    ⟨{}, offered root attempts, {}⟩ =
      (firstHost interval).proceed ⟨0, 1⟩ 1 ⟨0, 3⟩ (Jobs.Runner.work {} 1)
        ⟨firstStore, offered root attempts, {}⟩ := rfl

/-- The runner picks the job up in its first tick, and ends it. -/
theorem poll_newHost (leave : Jobs.Runner Rehearsal.Job → JobBoard → JobBoard) :
    ∃ h scene clock, (newHost interval).poll leave {} ⟨{}, offered root attempts, {}⟩ =
      (h, scene, clock) ∧ h.relayed = none ∧ scene.shared = built root := by
  obtain ⟨r, scene, hrun, hshared⟩ := run_work_offered isReady_firstStore root attempts 0 {}
  have hproceed : (firstHost interval).proceed ⟨0, 1⟩ 1 ⟨0, 3⟩ (Jobs.Runner.work {} 1)
      ⟨firstStore, offered root attempts, {}⟩ =
        ({ firstHost interval with
            worker := { (firstHost interval).worker with task := r, processed := 3 } },
          scene, ⟨0, 1⟩) := by
    rw [Host.proceed, hrun]
    rfl
  have hpoll : (newHost interval).poll leave {} ⟨{}, offered root attempts, {}⟩ =
      Host.catchUp leave 2 { newHost interval with activity := .idle } {}
        ⟨{}, offered root attempts, {}⟩ := rfl
  rw [hpoll, Host.catchUp_of_due _ _ rfl rfl (Nat.le_refl 0), tick_newHost, hproceed]
  refine ⟨_, _, _, Host.catchUp_of_idle _ _ rfl rfl ?_, rfl, hshared⟩
  exact Nat.lt_of_lt_of_le Nat.zero_lt_one (by simp [firstHost])

end Ticking

/-! ### The deployment -/

/-- One processor over an empty store, with a board, that was just started. -/
def staffed (settings : Settings) (board : JobBoard) : Deployment where
  processors := [{ board, host := newHost settings.tick, isStarted := true }]
  ready := [.worker (.processor 0)]

section Staffed

variable (settings : Settings) (root : String) (attempts : Nat)

theorem startProcessor_addProcessor :
    (({} : Deployment).addProcessor settings false).2.startProcessor 0 =
      staffed settings { common := [] } := rfl

theorem fulfil_submit (limit : Nat) : (staffed settings { common := [] }).fulfil
    (.submit 0 (.build ⟨root⟩) attempts (some limit)) =
      (⟨true, some 0⟩, staffed settings (offered root attempts)) :=
  fulfil_of_answer rfl rfl

/-- What the runner of a processor does to the deployment. -/
theorem pollWorker_of_poll {d : Deployment} {i : Nat} {p : Processor}
    {h : Host (Jobs.Runner Rehearsal.Job) JobBoard} {scene : Script.Scene JobBoard} {clock : Clock}
    (hp : d.processors[i]? = some p)
    (hpoll : p.host.poll (fun runner board => board.close (runner.current.map (·.id))) d.clock
      (d.scene p.board) = (h, scene, clock)) :
    d.pollWorker (.processor i) =
      { d.adopt scene clock with
        attempts := d.attempts ++ scene.shared.common
        processors := d.processors.set i
          { p with host := h, board := { scene.shared with common := [] } } } := by
  unfold pollWorker
  simp only [hp, hpoll]

/-- When nobody can go on any more, the root was built. -/
theorem settle_staffed : ∃ d, (staffed settings (offered root attempts)).settle = d ∧
    d.outcome? 0 0 = some (.ok (.build ⟨root⟩)) ∧ d.now = 0 ∧ d.waiters = [] := by
  let ready : Deployment := { staffed settings (offered root attempts) with ready := [] }
  obtain ⟨h, scene, clock, hpoll, hrelayed, hshared⟩ := poll_newHost settings.tick root attempts
    fun runner board => board.close (runner.current.map (·.id))
  have hnow : clock.now = 0 := by
    have hnow := Host.now_poll (newHost settings.tick) {}
      (fun runner board => board.close (runner.current.map (·.id)))
      ⟨{}, offered root attempts, {}⟩
    rwa [hpoll] at hnow
  have hsettle : (staffed settings (offered root attempts)).settle =
      settleSteps 5 (ready.poll (.worker (.processor 0))) := by
    rw [settle]
    exact settleSteps_of_ready rfl rfl rfl 5
  rw [hsettle, poll, pollWorker_of_poll (d := ready) rfl hpoll]
  refine ⟨_, settleSteps_of_rest ?_ rfl rfl 5, ?_, hnow, rfl⟩
  · simp [ready, staffed, adopt, relaysWithMail, Host.hasMail, hrelayed]
  · rw [hshared]
    rfl

/-- The processor builds the root at once. -/
theorem buildRoot_of_staffed : ∃ d,
    (staffed settings { common := [] }).buildRoot 0 root attempts = (.ok (), d) ∧
      d.now = 0 ∧ d.waiters = [] := by
  obtain ⟨d, hsettle, houtcome, hd⟩ := settle_staffed settings root attempts
  have hadvance : (staffed settings (offered root attempts)).advance
      (fun d => (d.outcome? 0 0).isSome) rootLimit = d := by
    rw [advance_of_settle _ (by decide) rfl (by rw [hsettle, houtcome]; rfl), hsettle]
  refine ⟨d, ?_, hd⟩
  rw [buildRoot, fulfil_submit]
  dsimp only
  rw [awaitJob, hadvance, houtcome]
  rfl

end Staffed

end ServiceRegistry.Deployment
