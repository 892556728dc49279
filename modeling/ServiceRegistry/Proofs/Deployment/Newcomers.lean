import ServiceRegistry.Deployment.Operation
import ServiceRegistry.Proofs.Announcing.Calls
import ServiceRegistry.Proofs.Deployment.Advancing

/-! # Clients that have announced nothing

The worker of a client brings the store in line with the roster, and only ever drops removals from
it. So the roster of a client that has announced nothing stays empty while time passes, whatever the
other parties do (`Deployment.HasNewcomer.advance`), and also while something is waited for
(`Deployment.HasNewcomer.fulfil`). -/

namespace ServiceRegistry

/-! ### Passes over an empty roster -/

namespace Client

/-- Nothing is announced, and nothing is to be removed. -/
def IsBlank (y : Shared) : Prop := y.roster = {}

/-- What the worker of a client that announces nothing keeps up. -/
def blankTerms : Script.Terms Shared where
  shared := IsBlank

theorem keeps_visit_blank (m : Member) (children : List String) (id : SessionId) (gen : Nat) :
    (Visitor.visit m children id gen).Keeps blankTerms fun _ => True := by
  cases m with
  | follower f =>
      refine Script.keeps_bind (Script.keeps_zoom ((Script.keeps_trivial _).mono ?_) ?_ ?_ ?_ ?_)
      · exact fun _ _ => trivial
      · exact fun _ _ => trivial
      · exact fun _ _ hy _ _ => ⟨hy, trivial⟩
      · exact fun _ _ => trivial
      · exact fun _ _ _ => trivial
  | publisher p =>
      let t : Script.Terms Roster := { shared := (· = {}) }
      have hvisit : (p.visit children gen).Keeps t fun _ => True :=
        Publisher.keeps_visit (fun _ => True) children gen trivial (fun _ _ _ _ _ _ => trivial)
          (fun _ _ _ => trivial) (fun _ _ _ _ => trivial) (fun _ _ _ _ => trivial)
          (fun _ _ hroster => ⟨hroster ▸ rfl, trivial⟩) fun _ _ _ _ => trivial
      refine Script.keeps_bind (Script.keeps_zoom (hvisit.mono ?_) ?_ ?_ ?_ ?_)
      · exact fun _ _ => trivial
      · exact fun _ hy => hy
      · exact fun _ _ _ hz _ => ⟨hz, trivial⟩
      · exact fun _ _ => trivial
      · exact fun _ _ _ => trivial

theorem keeps_visitAll_blank (children : List String) (id : SessionId) (gen : Nat)
    (vs : List Member) : (Survey.visitAll children id gen vs).Keeps blankTerms fun _ => True := by
  induction vs with
  | nil => trivial
  | cons v vs ih =>
      refine Script.keeps_bind ((keeps_visit_blank v children id gen).mono ?_)
      rintro ⟨v', e | u⟩ -
      · trivial
      · exact Script.keeps_bind (ih.mono fun _ _ => trivial)

theorem keeps_work_blank (t : Survey Member) (id : SessionId) (pass : Pass) :
    (Task.work t id pass).Keeps blankTerms fun _ => True := by
  refine ⟨trivial, fun answer _ => ?_⟩
  cases answer with
  | error e => trivial
  | ok children =>
      exact Script.keeps_bind ((keeps_visitAll_blank children id pass.generation t.visitors).mono
        fun _ _ => trivial)

end Client

namespace Deployment

open Client (IsBlank)

/-! ### What others leave alone -/

/-- A client with some settings may announce and has announced nothing. -/
structure ClientSite.IsNew (settings : Settings) (site : ClientSite) : Prop where
  settings_eq : site.client.settings = settings
  isWritable : site.client.isWritable = true
  isBlank : IsBlank site.client.shared
  host : ∀ host, site.host = some host → host.Keeps IsBlank site.client.shared

/-- A client has announced nothing, and nobody waits on behalf of others. -/
structure HasNewcomer (i : Nat) (settings : Settings) (d : Deployment) : Prop where
  waiters : d.waiters = []
  site : ∃ site, d.clients[i]? = some site ∧ site.IsNew settings

namespace HasNewcomer

variable {d d' : Deployment} {i : Nat} {settings : Settings}

/-- It does so where the clients and those who wait are the same. -/
theorem congr (h : HasNewcomer i settings d) (hclients : d'.clients = d.clients)
    (hwaiters : d'.waiters = d.waiters) : HasNewcomer i settings d' where
  waiters := hwaiters.trans h.waiters
  site := by rw [hclients]; exact h.site

/-- It does so where one client changed, if a new one stays new. -/
theorem set {j : Nat} {site site' : ClientSite} (h : HasNewcomer i settings d)
    (hclients : d'.clients = d.clients.set j site') (hwaiters : d'.waiters = d.waiters)
    (hj : d.clients[j]? = some site) (hnew : site.IsNew settings → site'.IsNew settings) :
    HasNewcomer i settings d' := by
  obtain ⟨hwait, new, hi, hsite⟩ := h
  refine ⟨hwaiters.trans hwait, ?_⟩
  rw [hclients, List.getElem?_set]
  by_cases hji : j = i
  · subst hji
    obtain rfl : new = site := Option.some.inj (hi.symm.trans hj)
    obtain ⟨hlt, -⟩ := List.getElem?_eq_some_iff.mp hj
    exact ⟨site', by simp [hlt], hnew hsite⟩
  · exact ⟨new, by simp [hji, hi], hsite⟩

theorem enqueue (h : HasNewcomer i settings d) (a : Actor) :
    HasNewcomer i settings (d.enqueue a) := by
  unfold Deployment.enqueue
  split
  · exact h
  · exact h.congr rfl rfl

theorem pollWorker (h : HasNewcomer i settings d) (party : Party) :
    HasNewcomer i settings (d.pollWorker party) := by
  cases party with
  | client j =>
      unfold Deployment.pollWorker
      dsimp only
      split
      · next site hj =>
        split
        · next host hhost =>
          refine h.set rfl rfl hj fun hnew => ?_
          have hpoll : Host.Holds IsBlank d.clock.now
              (host.poll (fun _ s => s) d.clock (d.scene site.client.shared)) :=
            host.holds_poll d.clock (fun _ _ hy => hy) Client.keeps_work_blank
              (hnew.host host hhost)
          refine ⟨hnew.settings_eq, hnew.isWritable, hpoll.keeps.shared, fun _ hlater => ?_⟩
          cases hlater
          exact hpoll.keeps
        · exact h
      · exact h
  | drill j =>
      unfold Deployment.pollWorker
      dsimp only
      split
      · exact h.congr rfl rfl
      · exact h
  | processor j =>
      unfold Deployment.pollWorker
      dsimp only
      split
      · exact h.congr rfl rfl
      · exact h

theorem pollRelay (h : HasNewcomer i settings d) (party : Party) :
    HasNewcomer i settings (d.pollRelay party) := by
  cases party with
  | client j =>
      unfold Deployment.pollRelay
      dsimp only
      split
      · next site hj =>
        split
        · next host hhost =>
          refine h.set rfl rfl hj fun hnew =>
            ⟨hnew.settings_eq, hnew.isWritable, hnew.isBlank, fun _ hlater => ?_⟩
          cases hlater
          have hkeeps := hnew.host host hhost
          unfold Host.relay
          split
          · exact hkeeps
          · exact ⟨hkeeps.shared, hkeeps.rest⟩
        · exact h
      · exact h
  | drill j =>
      unfold Deployment.pollRelay
      dsimp only
      split
      · exact h.congr rfl rfl
      · exact h
  | processor j =>
      unfold Deployment.pollRelay
      dsimp only
      split
      · exact h.congr rfl rfl
      · exact h

theorem pollLogger (h : HasNewcomer i settings d) (j : Nat) :
    HasNewcomer i settings (d.pollLogger j) := by
  unfold Deployment.pollLogger
  split
  · exact h
  · split
    · exact h
    · split
      · exact h.congr rfl rfl
      · split
        · exact h.congr rfl rfl
        · exact h

theorem poll (h : HasNewcomer i settings d) (a : Actor) : HasNewcomer i settings (d.poll a) := by
  cases a with
  | worker party => exact h.pollWorker party
  | relay party => exact h.pollRelay party
  | logger j => exact h.pollLogger j
  | waiter j =>
      unfold Deployment.poll pollWaiter
      simp only [h.waiters, List.getElem?_nil]
      exact h

/-- A client announces nothing by itself, however much time passes. -/
theorem advance (h : HasNewcomer i settings d) (goal : Deployment → Bool) (limit : Nat) :
    HasNewcomer i settings (d.advance goal limit) :=
  advance_induction (fun _ _ h => h.congr rfl rfl) (fun _ _ h => h.congr rfl rfl)
    (fun _ a h => h.poll a) goal limit h

/-! ### Wishes -/

theorem onTurns (h : HasNewcomer i settings d) (j : Nat) (f : Turns → Turns) :
    HasNewcomer i settings (d.onTurns j f) := by
  obtain ⟨hwait, site, hi, hsite⟩ := h
  refine ⟨hwait, _, (List.getElem?_modify _ _ _ _).trans (congrArg _ hi), ?_⟩
  dsimp only
  split
  · exact ⟨hsite.settings_eq, hsite.isWritable, hsite.isBlank, hsite.host⟩
  · exact hsite

theorem launch (h : HasNewcomer i settings d) (j : Nat) :
    HasNewcomer i settings (d.launch j).2 := by
  unfold Deployment.launch
  split
  · exact h
  · next site hj =>
    dsimp only
    split
    · exact h
    · refine enqueue ?_ _
      refine h.set rfl rfl hj fun hnew => ⟨hnew.settings_eq, hnew.isWritable, hnew.isBlank, ?_⟩
      rintro _ hhost
      cases hhost
      exact ⟨hnew.isBlank, fun _ _ _ _ hworking => nomatch hworking⟩

theorem onBoard {α : Type} (h : HasNewcomer i settings d) (j : Nat) (otherwise : α)
    (f : JobBoard → α × JobBoard) : HasNewcomer i settings (d.onBoard j otherwise f).2 := by
  unfold Deployment.onBoard
  split
  · exact h
  · exact h.congr rfl rfl

theorem come (h : HasNewcomer i settings d) (who : Jobs.Standing) (w : Wish) :
    HasNewcomer i settings (d.come who w) := by
  unfold Deployment.come
  split
  · split
    · exact h
    · exact h.onTurns _ _
  · exact h

theorem receive (h : HasNewcomer i settings d) (who : Jobs.Standing) (w : Wish) :
    HasNewcomer i settings (d.receive who w).2 := by
  cases w with
  | edition catalog limit => exact h
  | start j =>
      have hlaunch := h.launch j
      unfold Deployment.receive
      dsimp only
      split <;> split <;> first | exact hlaunch | exact hlaunch.onTurns _ _
  | submit j job maxAttempts limit => exact h.onBoard j _ _

theorem conclude (h : HasNewcomer i settings d) (who : Jobs.Standing) (w : Wish) :
    HasNewcomer i settings (d.conclude who w).2 := by
  cases w with
  | edition catalog limit => exact h
  | start j => exact h
  | submit j job maxAttempts limit => exact h.onBoard j _ _

/-- Nor does it while something is waited for. -/
theorem fulfil (h : HasNewcomer i settings d) (w : Wish) :
    HasNewcomer i settings (d.fulfil w).2 := by
  have hreceive := ((h.come 0 w).advance (·.isAdmitted 0 w) patience).receive 0 w
  unfold Deployment.fulfil
  split
  · next answer d' hanswer =>
    rw [hanswer] at hreceive
    exact hreceive
  · next limit d' hlimit =>
    rw [hlimit] at hreceive
    exact (hreceive.advance _ limit).conclude 0 w

/-- The start of the client is waited for as long as its settings say. -/
theorem limit_start (h : HasNewcomer i settings d) (who : Jobs.Standing) {l : Nat}
    (hlimit : (d.receive who (.start i)).1 = .inr l) : l = settings.startupWait := by
  have hstarted : ∀ (b : Bool) (d' : Deployment), HasNewcomer i settings d' →
      (if b then (.inl ⟨true, none⟩, d')
        else (.inr ((d'.clients[i]?.map (·.client.settings.startupWait)).getD 0), d') :
          Reception × Deployment).1 = .inr l → l = settings.startupWait := by
    intro b d' h hl
    obtain ⟨-, site, hi, hnew⟩ := h
    cases b with
    | true => cases hl
    | false =>
        rw [hi] at hl
        cases hl
        exact congrArg Settings.startupWait hnew.settings_eq
  have hlaunch := h.launch i
  unfold Deployment.receive at hlimit
  dsimp only at hlimit
  split at hlimit
  · exact hstarted _ _ (hlaunch.onTurns _ _) hlimit
  · exact hstarted _ _ hlaunch hlimit

end HasNewcomer

/-- A first edition is waited for as long as was said. -/
theorem limit_edition (d : Deployment) (who : Jobs.Standing) (catalog : CatalogRef) (limit : Nat)
    {l : Nat} (hlimit : (d.receive who (.edition catalog limit)).1 = .inr l) : l = limit := by
  unfold receive at hlimit
  dsimp only at hlimit
  split at hlimit
  · cases hlimit
  · cases hlimit
    rfl

/-- A client that was just added is new. -/
theorem hasNewcomer_addClient {d : Deployment} (h : d.waiters = []) (settings : Settings)
    (relays : Bool) :
    HasNewcomer d.clients.length settings (d.addClient settings true relays).2 where
  waiters := h
  site := by
    refine ⟨_, List.getElem?_concat_length, rfl, rfl, rfl, fun _ hhost => ?_⟩
    cases hhost

/-- Nobody has a turn at a client that was just added. -/
theorem isAdmitted_addClient (d : Deployment) (settings : Settings) (who : Jobs.Standing) :
    ((d.addClient settings true false).2.come who (.start d.clients.length)).isAdmitted who
      (.start d.clients.length) = true := by
  unfold come
  dsimp only
  split
  · assumption
  · refine (Bool.or_eq_true _ _).mpr (.inl ?_)
    have hadded : (d.addClient settings true false).2.clients[d.clients.length]? =
        some { client := .make settings true, relays := false } := List.getElem?_concat_length
    rw [hasTurn, onTurns]
    dsimp only
    rw [List.getElem?_modify_eq, hadded]
    exact Turns.isHeldBy_come_of_free who

end Deployment

end ServiceRegistry
