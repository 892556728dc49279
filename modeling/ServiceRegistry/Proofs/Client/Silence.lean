import ServiceRegistry.Proofs.Announcing.Convergence
import ServiceRegistry.Proofs.Client.Following
import ServiceRegistry.Proofs.Worker.Readers

/-! # Clients that may not announce

A client that is read-only, or whose announcements are switched off, has a follower among its
visitors and no publisher, and a follower only reads. So whatever is asked of the client, and
however often it is started and stopped while others change the store and end its sessions, it
makes no call that asks for a change of the tree, and no deed of its own changes the tree
(`Client.silent_clients_never_write`). -/

namespace ServiceRegistry

/-! ### Followers only read -/

namespace Follower

/-- A call that asks for no change of the tree. -/
abbrev IsRead (r : Request) : Prop := r.isWrite = false

theorem calls_reap (penalty : Nat) (path : String) (data : Bytes) (h : Harvest) :
    (reap penalty path data h).Calls IsRead := by
  unfold reap
  split
  · trivial
  · intro id
    dsimp only
    split
    · trivial
    · exact fun now => trivial

theorem calls_collect (penalty : Nat) (path : String) (h : Harvest) :
    (collect penalty path h).Calls IsRead := by
  refine ⟨rfl, fun answer => ?_⟩
  cases answer with
  | error e => trivial
  | ok data => exact Script.calls_bind (calls_reap penalty path data h) fun _ => trivial

theorem calls_begin (penalty : Nat) (paths : List String) (slow : List (String × Nat))
    (h : Harvest) : (begin' penalty paths slow h).Calls IsRead := by
  induction paths generalizing slow h with
  | nil => trivial
  | cons path paths ih =>
      refine ⟨rfl, fun answer => ?_⟩
      cases answer with
      | error e =>
          dsimp only
          split
          · trivial
          · exact ih slow h
      | ok delay =>
          cases delay with
          | some ms => exact ih _ h
          | none =>
              refine Script.calls_bind (calls_collect penalty path h) ?_
              rintro ⟨h, e | u⟩
              · trivial
              · exact ih slow h

theorem calls_pauseFor {σ α : Type} {ms : Nat} {x : Script σ α} (h : x.Calls IsRead) :
    (x.pauseFor ms).Calls IsRead := by
  unfold Script.pauseFor
  split <;> exact h

theorem calls_finish (f : Follower) (passed : Nat) (slow : List (String × Nat)) (h : Harvest) :
    (f.finish passed slow h).Calls IsRead := by
  induction slow generalizing passed h with
  | nil => trivial
  | cons read slow ih =>
      unfold finish
      split
      · refine calls_pauseFor (Script.calls_bind (calls_collect f.penalty read.1 h) ?_)
        rintro ⟨h, e | u⟩
        · trivial
        · exact ih read.2 h
      · exact calls_pauseFor trivial

/-- Every call of a visit is one that reads. -/
theorem calls_visit (f : Follower) (children : List String) :
    (f.visit children).Calls IsRead := by
  intro now
  refine Script.calls_bind (calls_begin _ _ _ _) ?_
  rintro ⟨h, e | slow⟩
  · trivial
  · refine Script.calls_bind (calls_finish f 0 slow h) ?_
    rintro ⟨h, e | u⟩
    · trivial
    · trivial

end Follower

namespace Client

open Store
open Worker (Entry Silent OwnsNothing replay)

/-! ### Surveys without a publisher -/

/-- The survey has one visitor, which follows. -/
def OnlyFollows (t : Survey Member) : Prop := ∃ f, t.visitors = [.follower f]

theorem onlyFollows_survey {c : Client} (h : c.announces = false) : OnlyFollows c.survey := by
  unfold announces at h
  unfold survey
  simp only [h]
  exact ⟨_, rfl⟩

theorem keeps_follower_visit (f : Follower) (children : List String) (id : SessionId) (gen : Nat) :
    (Visitor.visit (Member.follower f) children id gen).Keeps Script.reading
      fun out => ∃ f', out.1 = .follower f' :=
  Script.keeps_bind (Script.keeps_zoom ((f.calls_visit children).keeps.mono fun _ _ => ⟨_, rfl⟩)
    (fun _ _ => trivial) (fun _ _ _ _ _ => ⟨trivial, trivial⟩) (fun _ hr => hr)
    fun _ _ _ => trivial)

/-- Surveys without a publisher only read, and stay without one. -/
theorem onlyReads_onlyFollows : Worker.OnlyReads OnlyFollows where
  request t y tick generation h := by
    obtain ⟨f, hf⟩ := h
    simp only [Task.request, Survey.request]
    split
    · exact ⟨f, hf⟩
    · exact ⟨f, by simp only [hf, Survey.requestAll, Visitor.request]⟩
  work t id pass h := by
    obtain ⟨f, hf⟩ := h
    refine ⟨rfl, fun answer _ => ?_⟩
    cases answer with
    | error e => exact ⟨f, hf⟩
    | ok children =>
        rw [hf]
        refine Script.keeps_bind (Script.keeps_bind
          ((keeps_follower_visit f children id pass.generation).mono ?_))
        rintro ⟨v, e | u⟩ ⟨f', rfl⟩
        · exact ⟨f', rfl⟩
        · exact ⟨f', rfl⟩

/-! ### Clients that are started and stopped -/

/-- What a client can be asked to announce, or to announce no more. -/
inductive Wish where
  | announce (r : Record)
  | withdraw (r : Record)
  | withdrawAll

/-- The client after a wish. -/
def ask (c : Client) : Wish → Except ReadOnly Client
  | .announce r => c.announce r
  | .withdraw r => c.withdraw r
  | .withdrawAll => c.withdrawAll

theorem ask_eq_ok {c c' : Client} {a : Wish} (h : c.ask a = .ok c') :
    c.isWritable = true ∧ c'.isWritable = c.isWritable ∧ c'.settings = c.settings := by
  have hchange : ∀ f, c.changeRoster f = .ok c' →
      c.isWritable = true ∧ c'.isWritable = c.isWritable ∧ c'.settings = c.settings := by
    intro f hf
    unfold changeRoster at hf
    split at hf
    · next hwritable =>
      cases hf
      exact ⟨hwritable, rfl, rfl⟩
    · cases hf
  cases a with
  | announce r => exact hchange (·.announce r) h
  | withdraw r => exact hchange (·.withdraw r) h
  | withdrawAll => exact hchange (·.withdrawAll) h

theorem ask_of_readOnly {c : Client} (h : c.isWritable = false) (a : Wish) :
    c.ask a = .error .readOnly := by
  cases hask : c.ask a with
  | error e => rfl
  | ok c' => cases h.symm.trans (ask_eq_ok hask).1

/-- A client with its worker, if it was started and is not stopped, and the store. -/
structure Station where
  client : Client
  bench : Option (Worker.Bench (Survey Member) Shared) := none
  store : Store

namespace Station

variable (g : Station)

/-- The session of the worker. -/
def held : Option SessionId := g.bench.bind (·.worker.session)

/-- The client after a wish; one that is refused leaves it. -/
def asked (a : Wish) : Station := { g with client := (g.client.ask a).toOption.getD g.client }

/-- Start the client, unless it is disabled or has a worker. -/
def start : Station :=
  if g.client.settings.enabled && g.bench.isNone then
    { g with bench := some { worker := { task := g.client.survey } } }
  else g

/-- A worker that is over makes room for the next start. -/
def leave : Station := if g.bench.any (·.isOver) then { g with bench := none } else g

/-- The client after its worker acted. -/
def adopt (c : Course) : Station where
  client := { g.client with shared := c.shared }
  bench := some c.bench
  store := c.store

end Station

/-- A client from the start on, with all deeds on the store. It is asked to announce and withdraw,
started and stopped; lookups change nothing. Others may do to the store what does not take having
the session of its worker. -/
inductive History (c : Client) (s₀ : Store) : List Entry → Station → Prop
  | made : History c s₀ [] { client := c, store := s₀ }
  | ask {es : List Entry} {g : Station} (a : Wish) (h : History c s₀ es g) :
      History c s₀ es (g.asked a)
  | start {es : List Entry} {g : Station} (h : History c s₀ es g) : History c s₀ es g.start
  | act {es : List Entry} {g : Station} {b : Worker.Bench (Survey Member) Shared}
      {ds : List Deed} {d : Course} (h : History c s₀ es g) (running : g.bench = some b)
      (act : Worker.Course.Act ⟨b, g.store, g.client.shared⟩ ds d) :
      History c s₀ (es ++ ds.map (⟨true, ·⟩)) (g.adopt d)
  | leave {es : List Entry} {g : Station} (h : History c s₀ es g) : History c s₀ es g.leave
  | deed {es : List Entry} {g : Station} {d : Deed} (h : History c s₀ es g)
      (foreign : Worker.Foreign g.held d) :
      History c s₀ (es ++ [⟨false, d⟩]) { g with store := g.store.perform d }

/-! ### What holds all through -/

/-- The client may not announce, its worker only reads, its session owns nothing, and its deeds so
far were silent. -/
structure Hushed (c : Client) (s₀ : Store) (es : List Entry) (g : Station) : Prop where
  isWritable_eq : g.client.isWritable = c.isWritable
  settings_eq : g.client.settings = c.settings
  reader : ∀ b, g.bench = some b → Worker.Course.IsReader OnlyFollows b
  ownsNothing : OwnsNothing g.store g.held
  replay_eq : replay s₀ es = g.store
  silent : Silent s₀ es

namespace Hushed

variable {c : Client} {s₀ : Store} {es : List Entry} {g : Station}

theorem made (hs₀ : ByDeeds (fun _ => True) {} s₀) :
    Hushed c s₀ [] { client := c, store := s₀ } where
  isWritable_eq := rfl
  settings_eq := rfl
  reader b hb := by cases hb
  ownsNothing := ⟨hs₀, fun id path hid => by cases hid⟩
  replay_eq := rfl
  silent := trivial

theorem announces_eq (h : Hushed c s₀ es g) : g.client.announces = c.announces := by
  rw [announces, announces, h.isWritable_eq, h.settings_eq]

theorem asked (h : Hushed c s₀ es g) (a : Wish) : Hushed c s₀ es (g.asked a) := by
  have hclient : (g.asked a).client.isWritable = g.client.isWritable ∧
      (g.asked a).client.settings = g.client.settings := by
    unfold Station.asked
    cases hask : g.client.ask a with
    | error e => exact ⟨rfl, rfl⟩
    | ok c' => exact (ask_eq_ok hask).2
  exact ⟨hclient.1.trans h.isWritable_eq, hclient.2.trans h.settings_eq, h.reader, h.ownsNothing,
    h.replay_eq, h.silent⟩

theorem start (hc : c.announces = false) (h : Hushed c s₀ es g) : Hushed c s₀ es g.start := by
  unfold Station.start
  split
  · refine ⟨h.isWritable_eq, h.settings_eq, fun b hb => ?_, ?_, h.replay_eq, h.silent⟩
    · cases hb
      exact .start (onlyFollows_survey (h.announces_eq.trans hc))
    · exact ⟨h.ownsNothing.reached, fun id path hid => by cases hid⟩
  · exact h

theorem leave (h : Hushed c s₀ es g) : Hushed c s₀ es g.leave := by
  unfold Station.leave
  split
  · refine ⟨h.isWritable_eq, h.settings_eq, fun b hb => (by cases hb), ?_, h.replay_eq, h.silent⟩
    exact ⟨h.ownsNothing.reached, fun id path hid => by cases hid⟩
  · exact h

theorem act (h : Hushed c s₀ es g) {b : Worker.Bench (Survey Member) Shared} {ds : List Deed}
    {d : Course} (running : g.bench = some b)
    (act : Worker.Course.Act ⟨b, g.store, g.client.shared⟩ ds d) :
    Hushed c s₀ (es ++ ds.map (⟨true, ·⟩)) (g.adopt d) := by
  have hheld : g.held = b.worker.session := by rw [Station.held, running]; rfl
  have hreader := h.reader b running
  obtain ⟨hreader', hreads⟩ := Worker.Course.IsReader.act onlyReads_onlyFollows hreader act
  obtain ⟨hsilent, hreplay, howns⟩ :=
    (hheld ▸ h.ownsNothing).handles (act.handles hreader.session) hreads
  refine ⟨h.isWritable_eq, h.settings_eq, fun b' hb' => ?_, howns, ?_, ?_⟩
  · cases hb'
    exact hreader'
  · rw [replay, List.foldl_append]
    exact (congrArg (replay · _) h.replay_eq).trans hreplay
  · exact Worker.silent_append.mpr ⟨h.silent, h.replay_eq ▸ hsilent⟩

theorem deed (h : Hushed c s₀ es g) {d : Deed} (foreign : Worker.Foreign g.held d) :
    Hushed c s₀ (es ++ [⟨false, d⟩]) { g with store := g.store.perform d } := by
  refine ⟨h.isWritable_eq, h.settings_eq, h.reader, h.ownsNothing.foreign foreign, ?_, ?_⟩
  · rw [Worker.replay_concat, h.replay_eq]
  · exact Worker.silent_append.mpr ⟨h.silent, fun hown => (by cases hown), trivial⟩

theorem of_history (hc : c.announces = false) (hs₀ : ByDeeds (fun _ => True) {} s₀)
    (h : History c s₀ es g) : Hushed c s₀ es g := by
  induction h with
  | made => exact .made hs₀
  | ask a _ ih => exact ih.asked a
  | start _ ih => exact ih.start hc
  | act _ running act ih => exact ih.act running act
  | leave _ ih => exact ih.leave
  | deed _ foreign ih => exact ih.deed foreign

end Hushed

/-- How a client kept silent. -/
structure KeptSilent (c : Client) (s₀ : Store) (es : List Entry) (g : Station) : Prop where
  /-- The deeds that are listed lead to the present store. -/
  replay_eq : replay s₀ es = g.store
  /-- Those of the client ask for no change of the tree, and make none. -/
  silent : Silent s₀ es
  /-- A read-only client refuses every wish and stays as it is. -/
  refuses : c.isWritable = false → ∀ a, g.client.ask a = .error .readOnly ∧ g.asked a = g

/-- A client that is read-only or has its announcements switched off never writes, whatever it is
asked, however often it is started, and whatever others do to the store and its sessions. -/
theorem silent_clients_never_write {c : Client} {s₀ : Store} {es : List Entry} {g : Station}
    (hc : c.isWritable = false ∨ c.settings.announceEnabled = false)
    (hs₀ : ByDeeds (fun _ => True) {} s₀) (h : History c s₀ es g) : KeptSilent c s₀ es g := by
  have hannounces : c.announces = false := by
    rw [announces, Bool.and_eq_false_iff]
    exact hc
  have hhushed := Hushed.of_history hannounces hs₀ h
  refine ⟨hhushed.replay_eq, hhushed.silent, fun hreadOnly a => ?_⟩
  have hask := ask_of_readOnly (hhushed.isWritable_eq.trans hreadOnly) a
  refine ⟨hask, ?_⟩
  rw [Station.asked, hask]
  rfl

/-! ### A client that is started twice -/

theorem History.moves {c : Client} {s₀ : Store} {es : List Entry} {g : Station}
    {b : Worker.Bench (Survey Member) Shared} (h : History c s₀ es g) (running : g.bench = some b)
    {d : Course}
    (hmoves : Relation.ReflTransGen Worker.Course.Move ⟨b, g.store, g.client.shared⟩ d) :
    ∃ es, History c s₀ es (g.adopt d) := by
  induction hmoves with
  | refl =>
      obtain ⟨client, bench, store⟩ := g
      cases running
      exact ⟨es, h⟩
  | tail _ move ih =>
      obtain ⟨es, h⟩ := ih
      obtain ⟨ds, act⟩ := Worker.Course.move_iff_exists_act.mp move
      exact ⟨_, h.act rfl act⟩

namespace Station

variable (g : Station)

/-- The client after its worker made a round, if it has one. -/
def round : Station :=
  match g.bench with
  | some b => g.adopt (Worker.Course.round ⟨b, g.store, g.client.shared⟩)
  | none => g

/-- The client is stopped. -/
def stop : Station :=
  match g.bench with
  | some b => (g.adopt (Worker.Course.stop ⟨b, g.store, g.client.shared⟩)).leave
  | none => g

/-- The worker, if there is one, waits for its next tick. -/
def IsIdle : Prop := ∀ b ∈ g.bench, b.IsIdle

instance : Decidable g.IsIdle := inferInstanceAs (Decidable (∀ b ∈ g.bench, b.IsIdle))

end Station

theorem exists_history_round {c : Client} {s₀ : Store} {g : Station}
    (h : ∃ es, History c s₀ es g) (idle : g.IsIdle) : ∃ es, History c s₀ es g.round := by
  obtain ⟨es, h⟩ := h
  unfold Station.round
  split
  · next b hb => exact h.moves hb (Worker.Course.moves_round (idle b hb) 0 {})
  · exact ⟨es, h⟩

theorem exists_history_stop {c : Client} {s₀ : Store} {g : Station}
    (h : ∃ es, History c s₀ es g) (idle : g.IsIdle) : ∃ es, History c s₀ es g.stop := by
  obtain ⟨es, h⟩ := h
  unfold Station.stop
  split
  · next b hb =>
    obtain ⟨es, h⟩ := h.moves hb (.single (.stop (idle b hb)))
    exact ⟨es, h.leave⟩
  · exact ⟨es, h⟩

/-- A client that may announce, with its announcements switched off. -/
def muted : Client := .make { enabled := true, announceEnabled := false, root := "/srv" } true

/-- Its directory has one node, which is empty. -/
def mutedStore : Store := (({} : Store).put "/srv" []).put "/srv/a" []

/-- It is asked to announce a record and started; its session expires after a round. -/
def mutedExpired : Station :=
  let g := ((Station.mk muted none mutedStore).asked (.announce Publisher.queueRecord)).start.round
  { g with store := g.store.expire 1 }

/-- It is stopped and started again. -/
def mutedTwice : Station := mutedExpired.stop.start.round

theorem exists_history_mutedTwice : ∃ es, History muted mutedStore es mutedTwice := by
  have hmade : History muted mutedStore [] ⟨muted, none, mutedStore⟩ := .made
  have hstarted := (hmade.ask (.announce Publisher.queueRecord)).start
  obtain ⟨es, hround⟩ := exists_history_round ⟨_, hstarted⟩ (by decide +kernel)
  have hexpired : ∃ es, History muted mutedStore es mutedExpired :=
    ⟨_, hround.deed (d := .expire 1) trivial⟩
  obtain ⟨es, hstopped⟩ := exists_history_stop hexpired (by decide +kernel)
  exact exists_history_round ⟨es, hstopped.start⟩ (by decide +kernel)

theorem silent_clients_never_write_of_restart :
    ∃ es, History muted mutedStore es mutedTwice ∧ KeptSilent muted mutedStore es mutedTwice ∧
      mutedTwice.client.roster.desired = [Publisher.queueRecord] ∧ mutedTwice.store.opened = 2 ∧
      mutedTwice.store.children "/srv" = ["a"] := by
  obtain ⟨es, h⟩ := exists_history_mutedTwice
  have hstore : ByDeeds (fun _ => True) {} mutedStore :=
    .step (d := .put "/srv/a" []) (.single (d := .put "/srv" []) trivial {}) trivial
  exact ⟨es, h, silent_clients_never_write (.inr rfl) hstore h, by decide +kernel,
    by decide +kernel, by decide +kernel⟩

end Client

end ServiceRegistry
