import ServiceRegistry.Daemon
import ServiceRegistry.Proofs.Deployment.Newcomers
import ServiceRegistry.Proofs.Deployment.Roots

/-! # Coming up

All that can keep the daemon from coming up is in its configuration, and it is looked for before
there is a store (`Daemon.check`): `Daemon.Refused` says what is reported, which is the first thing
that is wrong, and `Daemon.IsAccepted` that nothing is. After that the daemon comes up
(`Daemon.exists_comeUp`): the root is built at once, as nothing else is in the store yet; the client
starts and is waited for, but no longer than its settings say; and as the client may announce and
has announced nothing before, the records that were configured are what it announces. -/

namespace ServiceRegistry.Daemon

open Deployment (HasNewcomer)

/-! ### Records of static announcements -/

/-- A static record shows what was configured. -/
structure Shows (a : StaticAnnouncement) (r : Record) : Prop where
  isStatic : r.isStatic = true
  id : r.id = a.id
  name : r.name = a.name
  kind : r.kind = a.kind
  scheme : r.property? Record.schemeKey = some a.scheme
  address : r.property? Record.addressKey = some a.address
  port : r.property? Record.portKey = some (toString a.port)

theorem record_of_nameless {a : StaticAnnouncement} (h : a.name = "") :
    record a = .error ⟨a.id, .emptyName⟩ := by
  have hmake : a.record = .error .emptyName := Record.make_eq_error_iff.mpr h
  rw [record, hmake]
  rfl

theorem exists_record_of_named {a : StaticAnnouncement} (h : a.name ≠ "") :
    ∃ r, record a = .ok r ∧ Shows a r := by
  refine ⟨⟨a.name, a.kind, a.id, Record.endpointProperties a.scheme a.address a.port, true, h⟩,
    ?_, rfl, rfl, rfl, rfl, ?_, ?_, ?_⟩
  · have hmake : a.record = .ok _ := dif_neg h
    rw [record, hmake]
    rfl
  all_goals
    simp [Record.property?, Record.endpointProperties, Record.schemeKey, Record.addressKey,
      Record.portKey]

/-- When every announcement has a name, each becomes a record, in order, -/
theorem exists_mapM_record {as : List StaticAnnouncement} (h : ∀ a ∈ as, a.name ≠ "") :
    ∃ rs, as.mapM record = .ok rs ∧ List.Forall₂ Shows as rs := by
  induction as with
  | nil => exact ⟨[], rfl, .nil⟩
  | cons a as ih =>
      obtain ⟨r, hr, hshows⟩ := exists_record_of_named (h a (by simp))
      obtain ⟨rs, hrs, hall⟩ := ih fun b hb => h b (by simp [hb])
      refine ⟨r :: rs, ?_, .cons hshows hall⟩
      rw [List.mapM_cons, hr, hrs]
      rfl

/-- and else the first one without a name is what is wrong. -/
theorem mapM_record_of_nameless {before later : List StaticAnnouncement} {a : StaticAnnouncement}
    (hbefore : ∀ b ∈ before, b.name ≠ "") (ha : a.name = "") :
    (before ++ a :: later).mapM record = .error ⟨a.id, .emptyName⟩ := by
  obtain ⟨rs, hrs, -⟩ := exists_mapM_record hbefore
  rw [List.mapM_append, hrs, List.mapM_cons, record_of_nameless ha]
  rfl

theorem exists_first_nameless {as : List StaticAnnouncement} (h : ¬∀ a ∈ as, a.name ≠ "") :
    ∃ before a later, as = before ++ a :: later ∧ (∀ b ∈ before, b.name ≠ "") ∧ a.name = "" := by
  obtain ⟨a, hmem, ha⟩ : ∃ a ∈ as, a.name = "" := by simpa using h
  obtain ⟨first, hfirst⟩ := Option.isSome_iff_exists.mp
    (List.find?_isSome.mpr ⟨a, hmem, decide_eq_true ha⟩ : (as.find? (·.name = "")).isSome)
  obtain ⟨hname, before, later, hlist, hbefore⟩ := List.find?_eq_some_iff_append.mp hfirst
  exact ⟨before, first, later, hlist, fun b hb => by simpa using hbefore b hb, by simpa using hname⟩

/-! ### Checks -/

/-- What is checked before there is a store. -/
def check (path : String) (file : Option Bytes) : Except Failure (Config × List Record) := do
  let config ← load path file
  if !config.settings.enabled then throw (.disabled path)
  let announced ← (config.announcements.mapM record).mapError .badAnnouncement
  if config.settings.connect = memoryStore then return (config, announced)
  else throw (.noStore ⟨config.settings.connect⟩)

/-- The file holds a configuration. -/
def Configures (file : Option Bytes) (config : Config) : Prop :=
  ∃ bytes document, file = some bytes ∧ Bytes.text? bytes = some document ∧
    Config.read document = .ok config

/-- The first thing that is wrong with a file. -/
inductive Refused (path : String) : Option Bytes → Failure → Prop
  | noFile : Refused path none (.unreadable path .notFound)
  | notText {bytes : Bytes} (htext : Bytes.text? bytes = none) :
      Refused path (some bytes) (.unreadable path .notText)
  | badConfig {bytes : Bytes} {document : String} {cause : Config.Error}
      (htext : Bytes.text? bytes = some document) (hread : Config.read document = .error cause) :
      Refused path (some bytes) (.badConfig path cause)
  | disabled {file : Option Bytes} {config : Config} (hconfig : Configures file config)
      (hdisabled : config.settings.enabled = false) : Refused path file (.disabled path)
  | nameless {file : Option Bytes} {config : Config} {before later : List StaticAnnouncement}
      {a : StaticAnnouncement} (hconfig : Configures file config)
      (henabled : config.settings.enabled = true)
      (hlist : config.announcements = before ++ a :: later)
      (hbefore : ∀ b ∈ before, b.name ≠ "") (ha : a.name = "") :
      Refused path file (.badAnnouncement ⟨a.id, .emptyName⟩)
  | noStore {file : Option Bytes} {config : Config} (hconfig : Configures file config)
      (henabled : config.settings.enabled = true)
      (hnamed : ∀ a ∈ config.announcements, a.name ≠ "")
      (hconnect : config.settings.connect ≠ "memory") :
      Refused path file (.noStore ⟨config.settings.connect⟩)

/-- Nothing is wrong with a file. -/
structure IsAccepted (file : Option Bytes) (config : Config) : Prop where
  configures : Configures file config
  isEnabled : config.settings.enabled = true
  isNamed : ∀ a ∈ config.announcements, a.name ≠ ""
  connect_eq : config.settings.connect = "memory"

theorem load_of_configures {file : Option Bytes} {config : Config} (path : String)
    (h : Configures file config) : load path file = .ok config := by
  obtain ⟨bytes, document, rfl, htext, hread⟩ := h
  rw [load]
  simp only [htext, hread]
  rfl

/-- What is left to check in a configuration that enables discovery. -/
theorem check_of_enabled {file : Option Bytes} {config : Config} (path : String)
    (h : Configures file config) (henabled : config.settings.enabled = true) :
    check path file = ((config.announcements.mapM record).mapError .badAnnouncement).bind
      fun announced =>
        if config.settings.connect = memoryStore then .ok (config, announced)
        else .error (.noStore ⟨config.settings.connect⟩) := by
  rw [check, load_of_configures path h]
  change (if !config.settings.enabled then _ else _ : Except Failure _) = _
  rw [henabled]
  rfl

theorem check_of_refused {path : String} {file : Option Bytes} {e : Failure}
    (h : Refused path file e) : check path file = .error e := by
  cases h with
  | noFile => rfl
  | notText htext =>
      rw [check, load]
      simp only [htext]
      rfl
  | badConfig htext hread =>
      rw [check, load]
      simp only [htext, hread]
      rfl
  | @disabled _ config hconfig hdisabled =>
      rw [check, load_of_configures path hconfig]
      change (if !config.settings.enabled then _ else _ : Except Failure _) = _
      rw [hdisabled]
      rfl
  | nameless hconfig henabled hlist hbefore ha =>
      rw [check_of_enabled path hconfig henabled, hlist, mapM_record_of_nameless hbefore ha]
      rfl
  | noStore hconfig henabled hnamed hconnect =>
      obtain ⟨rs, hrs, -⟩ := exists_mapM_record hnamed
      rw [check_of_enabled path hconfig henabled, hrs]
      exact if_neg hconnect

theorem exists_check_of_isAccepted {file : Option Bytes} {config : Config} (path : String)
    (h : IsAccepted file config) :
    ∃ rs, check path file = .ok (config, rs) ∧ List.Forall₂ Shows config.announcements rs := by
  obtain ⟨rs, hrs, hall⟩ := exists_mapM_record h.isNamed
  refine ⟨rs, ?_, hall⟩
  rw [check_of_enabled path h.configures h.isEnabled, hrs]
  exact if_pos h.connect_eq

/-- Either the first thing is wrong that can be, or another one, or nothing is. -/
theorem refused_or_isAccepted (path : String) (file : Option Bytes) :
    (∃ e, Refused path file e) ∨ ∃ config, IsAccepted file config := by
  cases file with
  | none => exact .inl ⟨_, .noFile⟩
  | some bytes =>
    cases htext : Bytes.text? bytes with
    | none => exact .inl ⟨_, .notText htext⟩
    | some document =>
      cases hread : Config.read document with
      | error cause => exact .inl ⟨_, .badConfig htext hread⟩
      | ok config =>
        have hconfig : Configures (some bytes) config := ⟨bytes, document, rfl, htext, hread⟩
        cases henabled : config.settings.enabled with
        | false => exact .inl ⟨_, .disabled hconfig henabled⟩
        | true =>
          by_cases hnamed : ∀ a ∈ config.announcements, a.name ≠ ""
          · by_cases hconnect : config.settings.connect = "memory"
            · exact .inr ⟨config, hconfig, henabled, hnamed, hconnect⟩
            · exact .inl ⟨_, .noStore hconfig henabled hnamed hconnect⟩
          · obtain ⟨before, a, later, hlist, hbefore, ha⟩ := exists_first_nameless hnamed
            exact .inl ⟨_, .nameless hconfig henabled hlist hbefore ha⟩

/-! ### Coming up -/

/-- Start a client that may announce, and wait for it. -/
def openClient (settings : Settings) (d : Deployment) : Nat × Deployment :=
  let (client, d) := d.addClient settings true false
  let (_, d) := d.fulfil (.start client)
  let (_, d) := d.fulfil (.edition (.client client) settings.worldChangeTimeout)
  (client, d)

/-- What is done after the checks. -/
def comeUp (config : Config) (announced : List Record) : Except Failure Daemon := do
  let d ← buildRoot config {}
  let opened := openClient config.settings d
  let deployment ← announceAll opened.2 opened.1 announced
  return { config, deployment, client := opened.1, announced }

/-- The checks come first, and only what they let pass goes on. -/
theorem start_eq (path : String) (file : Option Bytes) :
    start path file =
      (check path file).bind fun (config, announced) => comeUp config announced := by
  unfold start check
  cases load path file with
  | error e => rfl
  | ok config =>
      change (if !config.settings.enabled then _ else _ : Except Failure Daemon) =
        (if !config.settings.enabled then _ else _ : Except Failure _).bind _
      cases config.settings.enabled with
      | false => rfl
      | true =>
        cases config.announcements.mapM record with
        | error e => rfl
        | ok announced =>
          by_cases hconnect : config.settings.connect = memoryStore
          · have hopen : openStore config.settings = .ok {} := if_pos hconnect
            simp only [hopen, if_pos hconnect]
            rfl
          · have hopen : openStore config.settings = .error _ := if_neg hconnect
            simp only [hopen, if_neg hconnect]
            rfl

/-- The root is built, if it is to be, without any time passing. -/
theorem exists_buildRoot (config : Config) :
    ∃ d, buildRoot config {} = .ok d ∧ d.now = 0 ∧ d.waiters = [] := by
  obtain ⟨d, hbuild, hd⟩ :=
    Deployment.buildRoot_of_staffed config.settings config.settings.root config.buildAttempts
  have hstaffed := Deployment.startProcessor_addProcessor config.settings
  rcases hadded : ({} : Deployment).addProcessor config.settings false with ⟨processor, d'⟩
  obtain rfl : 0 = processor := congrArg Prod.fst hadded
  rw [hadded] at hstaffed
  rw [buildRoot, hadded]
  dsimp only at hstaffed ⊢
  rw [hstaffed, hbuild]
  split
  · exact ⟨d, rfl, hd⟩
  · exact ⟨_, rfl, rfl, rfl⟩

/-- The client is waited for as long as its settings say, and announces nothing meanwhile. -/
theorem hasNewcomer_openClient (settings : Settings) {d : Deployment} (h : d.waiters = []) :
    HasNewcomer (openClient settings d).1 settings (openClient settings d).2 ∧
      (openClient settings d).2.now ≤
        d.now + (settings.startupWait + settings.worldChangeTimeout) := by
  let added := (d.addClient settings true false).2
  let started := (added.fulfil (.start d.clients.length)).2
  let edition := Deployment.Wish.edition (.client d.clients.length) settings.worldChangeTimeout
  have hadded : HasNewcomer d.clients.length settings added :=
    Deployment.hasNewcomer_addClient h settings false
  have hstarted : HasNewcomer d.clients.length settings started := hadded.fulfil _
  have hstart : started.now ≤ d.now + settings.startupWait :=
    Deployment.now_fulfil_le (d.isAdmitted_addClient settings 0) fun l hl =>
      Nat.le_of_eq ((hadded.come 0 _).limit_start 0 hl)
  have hwait : (started.fulfil edition).2.now ≤ started.now + settings.worldChangeTimeout :=
    Deployment.now_fulfil_le rfl fun l hl => Nat.le_of_eq (started.limit_edition 0 _ _ hl)
  refine ⟨hstarted.fulfil edition, ?_⟩
  calc (started.fulfil edition).2.now
      ≤ started.now + settings.worldChangeTimeout := hwait
    _ ≤ d.now + settings.startupWait + settings.worldChangeTimeout :=
        Nat.add_le_add_right hstart _
    _ = d.now + (settings.startupWait + settings.worldChangeTimeout) := Nat.add_assoc _ _ _

/-- A client that may announce announces all that it is to. -/
theorem announceAll_of_isWritable {d : Deployment} {i : Nat} {site : Deployment.ClientSite}
    (rs : List Record) (hi : d.clients[i]? = some site)
    (hwritable : site.client.isWritable = true) :
    ∃ d' site', announceAll d i rs = .ok d' ∧ d'.now = d.now ∧ d'.clients[i]? = some site' ∧
      site'.client.settings = site.client.settings ∧
      site'.client.roster = rs.foldl Roster.announce site.client.roster := by
  induction rs generalizing d site with
  | nil => exact ⟨d, site, rfl, rfl, hi, rfl, rfl⟩
  | cons r rs ih =>
      obtain ⟨hlt, -⟩ := List.getElem?_eq_some_iff.mp hi
      let client : Client :=
        { site.client with
          shared := { site.client.shared with roster := site.client.shared.roster.announce r } }
      have hannounce : site.client.announce r = .ok client := if_pos hwritable
      have hstep : d.announcing i (·.announce r) =
          (.ok (), { d with clients := d.clients.set i { site with client } }) := by
        unfold Deployment.announcing
        simp only [hi, hannounce]
      obtain ⟨d', site', hd', hnow, hi', hsettings, hroster⟩ :=
        ih (d := { d with clients := d.clients.set i { site with client } })
          (List.getElem?_set_self hlt) hwritable
      refine ⟨d', site', ?_, hnow, hi', hsettings, hroster⟩
      rw [announceAll, hstep]
      exact hd'

theorem mem_desired_foldl_announce {rs : List Record} {t : Roster} {r : Record} :
    r ∈ (rs.foldl Roster.announce t).desired ↔ r ∈ t.desired ∨ r ∈ rs := by
  induction rs generalizing t with
  | nil => simp
  | cons r' rs ih =>
      rw [List.foldl_cons, ih, List.mem_cons]
      simp only [Roster.mem_desired_announce]
      tauto

/-- The daemon has come up with a configuration. -/
structure IsUp (config : Config) (daemon : Daemon) : Prop where
  config_eq : daemon.config = config
  /-- For each static announcement there is a record, in order. -/
  shows : List.Forall₂ Shows config.announcements daemon.announced
  /-- The client was asked to announce these records, in order, and they are what it announces. -/
  announces : ∃ site, daemon.deployment.clients[daemon.client]? = some site ∧
    site.client.settings = config.settings ∧
    site.client.roster = daemon.announced.foldl Roster.announce {} ∧
    ∀ r, r ∈ site.client.roster.desired ↔ r ∈ daemon.announced
  now_le : daemon.deployment.now ≤
    config.settings.startupWait + config.settings.worldChangeTimeout

/-- Nothing that comes after the checks fails. -/
theorem exists_comeUp (config : Config) {rs : List Record}
    (hrs : List.Forall₂ Shows config.announcements rs) :
    ∃ daemon, comeUp config rs = .ok daemon ∧ IsUp config daemon := by
  obtain ⟨d, hbuild, hzero, hwaiters⟩ := exists_buildRoot config
  obtain ⟨⟨-, site, hsite, hnew⟩, hnow⟩ := hasNewcomer_openClient config.settings hwaiters
  obtain ⟨last, announcing, hall, hlast, hclient, hsettings, hroster⟩ :=
    announceAll_of_isWritable rs hsite hnew.isWritable
  have hasked : announcing.client.roster = rs.foldl Roster.announce {} :=
    hroster.trans (congrArg (rs.foldl Roster.announce) hnew.isBlank)
  refine ⟨⟨config, last, _, rs⟩, ?_, rfl, hrs,
    ⟨announcing, hclient, hsettings.trans hnew.settings_eq, hasked, fun r => ?_⟩, ?_⟩
  · rw [comeUp, hbuild]
    change (announceAll _ _ rs).bind _ = _
    rw [hall]
    rfl
  · rw [hasked, mem_desired_foldl_announce]
    exact or_iff_right List.not_mem_nil
  · rw [hzero, Nat.zero_add] at hnow
    exact hlast.trans_le hnow

/-- A file that only switches discovery on is accepted. -/
example : (check "discoveryd.toml"
    (some (Bytes.ofText "[discovery]\nenabled = true\n"))).toBool = true := by cbv

end ServiceRegistry.Daemon
