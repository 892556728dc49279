import ServiceRegistry.Proofs.Client.Pinning
import ServiceRegistry.Proofs.ServiceUri.Grammar
import ServiceRegistry.Proofs.Url.Authority

/-! # The URLs of instances

The URL of an instance is put together as a text from the scheme, the address and the port of its
record and then read. If the scheme is one and the address is the text of a host
(`Endpoint.IsProper`) it is read as it was put together, and the URL of the instance and that of a
service URI at it agree on scheme, host and port. Otherwise what is read is of another endpoint, if
it is a URL at all (`Client.urls_name_proper_endpoints`). -/

namespace ServiceRegistry

namespace Endpoint

open Url (IsScheme IsAddressOf AtSlash SchemeKind defaultPort? portText readHost)

variable {e : Endpoint} {r : Record} {u : ServiceUri} {url : Url} {h : Url.Host} {d text : String}

/-! ### Endpoints of records -/

/-- What every endpoint of a record is. -/
structure IsGiven (e : Endpoint) : Prop where
  address_ne : e.address ≠ ""
  port_le : e.port ≤ 65535

theorem le_of_readPort? {s : String} {n : Nat} (hport : readPort? s = some n) : n ≤ 65535 := by
  unfold readPort? at hport
  extract_lets digits number at hport
  split at hport
  · cases hport
  · split at hport
    · next hle => exact Option.some.inj hport ▸ hle
    · cases hport

theorem isGiven_of_ofRecord (he : ofRecord d r = .ok e) : e.IsGiven := by
  unfold ofRecord at he
  split at he
  · next scheme address port hscheme haddress hport =>
    split at he
    · next n hn =>
      cases he
      have hne := (Option.filter_eq_some_iff.mp haddress).2
      exact ⟨by simpa using hne, le_of_readPort? hn⟩
    · cases he
  · cases he

/-- Whether a record has an endpoint does not depend on what was asked for. -/
theorem ofRecord_cases (r : Record) :
    (∃ e, ∀ d, ofRecord d r = .ok e) ∨ ∀ d, ∃ cause, ofRecord d r = .error cause := by
  unfold ofRecord
  split
  · split
    · exact .inl ⟨_, fun _ => rfl⟩
    · exact .inr fun _ => ⟨_, rfl⟩
  · exact .inr fun _ => ⟨_, rfl⟩

theorem IsGiven.host_ne (he : e.IsGiven) : e.host.toList ≠ [] := by
  unfold host
  split
  · simp
  · simpa using he.address_ne

/-! ### What an endpoint is to be read as -/

/-- The host that the address of an endpoint is on its own. -/
def ownHost (e : Endpoint) : Except Url.Error Url.Host :=
  readHost (.of e.scheme.toLower) e.host.toList

/-- The scheme of an endpoint is one, and its address is a host. -/
def IsProper (e : Endpoint) : Prop := IsScheme e.scheme ∧ ∃ h, e.ownHost = .ok h

/-- A URL is of the scheme, the host and the port of an endpoint, and of no user. -/
structure Names (e : Endpoint) (url : Url) : Prop where
  scheme_eq : url.scheme = e.scheme.toLower
  host_eq : ∃ h, e.ownHost = .ok h ∧ url.host = some h
  port_eq : url.port.or (defaultPort? url.scheme) = some e.port
  user_eq : url.user = {}

/-- The port of an endpoint, if its scheme implies another one or none. -/
def port? (e : Endpoint) : Option Nat :=
  if defaultPort? e.scheme.toLower = some e.port then none else some e.port

/-- A URL of an endpoint whose host is `h`. -/
structure Locates (e : Endpoint) (h : Url.Host) (url : Url) : Prop where
  scheme_eq : url.scheme = e.scheme.toLower
  host_eq : url.host = some h
  port_eq : url.port = e.port?
  user_eq : url.user = {}

theorem Locates.names (hl : e.Locates h url) (hown : e.ownHost = .ok h) : e.Names url := by
  refine ⟨hl.scheme_eq, ⟨h, hown, hl.host_eq⟩, ?_, hl.user_eq⟩
  rw [hl.port_eq, hl.scheme_eq, port?]
  split
  · next himplied => exact himplied
  · rfl

/-! ### Texts that are put together -/

/-- A text of an endpoint, in which a port that the scheme implies may be left out. -/
def Spells (e : Endpoint) (text : String) : Prop :=
  ∃ port, IsAddressOf text e.scheme e.host.toList port ∧
    (port = some e.port ∨ port = none ∧ defaultPort? e.scheme.toLower = some e.port)

theorem isAddressOf_base {port : Option Nat} {rest : String} {T : List Char}
    (hscheme : IsScheme e.scheme) (he : e.IsGiven) (hle : ∀ p ∈ port, p ≤ 65535) (hT : AtSlash T)
    (hrest : rest.toList = portText port ++ T) :
    IsAddressOf (e.base ++ rest) e.scheme e.host.toList port where
  scheme := hscheme
  ne := he.host_ne
  le := hle
  text_eq := ⟨T, hT, by simp [base, hrest]⟩

theorem toList_port (p : Nat) : (":" ++ toString p).toList = portText (some p) := by
  have hdigits : toString p = String.ofList (Nat.toDigits 10 p) := Nat.toString_eq_ofList_toDigits
  simp [hdigits, portText]

theorem spells_url (hscheme : IsScheme e.scheme) (he : e.IsGiven) :
    e.Spells (e.base ++ ":" ++ toString e.port) := by
  refine ⟨some e.port, ?_, .inl rfl⟩
  rw [String.append_assoc]
  refine isAddressOf_base hscheme he (T := []) ?_ (fun c hc => by cases hc) ?_
  · intro p hp
    cases hp
    exact he.port_le
  · rw [toList_port, List.append_nil]

theorem defaultPort?_of_hasImpliedPort (himplied : e.hasImpliedPort = true) :
    defaultPort? e.scheme.toLower = some e.port := by
  simp only [hasImpliedPort, Bool.or_eq_true, Bool.and_eq_true, decide_eq_true_eq] at himplied
  rcases himplied with ⟨hscheme, hport⟩ | ⟨hscheme, hport⟩
  · rw [hscheme, hport, Url.toLower_eq]
    decide
  · rw [hscheme, hport, Url.toLower_eq]
    decide

/-- The path of a service URI comes first after the port. -/
theorem atSlash_components (hu : ServiceUri.parse text = .ok u) :
    AtSlash (component "" (some u.path) ++ component "?" u.query ++
      component "#" u.fragment).toList := by
  obtain ⟨path, hpath⟩ : ∃ path, u.path.toList = '/' :: path := by
    rcases ServiceUri.parse_cases text with ⟨v, hv, hspells⟩ | herror
    · cases hu.symm.trans hv
      exact ⟨_, (List.head?_eq_some_iff.mp hspells.path_slash).choose_spec⟩
    · cases hu.symm.trans herror
  have hblank : Text.allBlank u.path = false := by
    unfold Text.allBlank
    rw [hpath]
    rfl
  intro c hc
  have hhead : '/' = c := by simpa [component, hblank, hpath] using hc
  exact hhead.symm

theorem spells_target (hscheme : IsScheme e.scheme) (he : e.IsGiven)
    (hu : ServiceUri.parse text = .ok u) : e.Spells (e.target u) := by
  have htarget : e.target u = e.base ++
      ((if e.hasImpliedPort then "" else ":" ++ toString e.port) ++
        (component "" (some u.path) ++ component "?" u.query ++ component "#" u.fragment)) := by
    simp only [target, String.append_assoc]
  rw [htarget]
  have hT := atSlash_components hu
  cases himplied : e.hasImpliedPort with
  | true =>
      refine ⟨none, ?_, .inr ⟨rfl, defaultPort?_of_hasImpliedPort himplied⟩⟩
      exact isAddressOf_base hscheme he (fun p hp => by cases hp) hT (by simp [portText])
  | false =>
      refine ⟨some e.port, ?_, .inl rfl⟩
      refine isAddressOf_base hscheme he ?_ hT ?_
      · intro p hp
        cases hp
        exact he.port_le
      · rw [String.toList_append, if_neg Bool.false_ne_true, toList_port]

theorem isSpecial_of_defaultPort? {scheme : String} {p : Nat}
    (hport : defaultPort? scheme = some p) :
    SchemeKind.of scheme ≠ .file ∧ (SchemeKind.of scheme).isSpecial = true := by
  unfold defaultPort? at hport
  split at hport
  · next hscheme => rcases hscheme with rfl | rfl <;> decide
  · split at hport
    · next hscheme => rcases hscheme with rfl | rfl <;> decide
    · split at hport
      · next hscheme =>
        rw [hscheme]
        decide
      · cases hport

/-- The text of an endpoint with a host of its own is read as its URL, but for files. -/
theorem Spells.parse_cases (ht : e.Spells text) (hown : e.ownHost = .ok h) :
    (SchemeKind.of e.scheme.toLower = .file ∧ ∃ cause, Url.parse text = .error cause) ∨
      SchemeKind.of e.scheme.toLower ≠ .file ∧
        ∃ url, Url.parse text = .ok url ∧ e.Locates h url := by
  obtain ⟨port, haddress, hport⟩ := ht
  by_cases hkind : SchemeKind.of e.scheme.toLower = .file
  · refine .inl ⟨hkind, ?_⟩
    rcases hport with rfl | ⟨-, himplied⟩
    · exact Url.exists_parse_eq_error haddress hkind hown
    · exact absurd hkind (isSpecial_of_defaultPort? himplied).1
  · have hspecial : port = none → (SchemeKind.of e.scheme.toLower).isSpecial = true := by
      rintro rfl
      rcases hport with hsome | ⟨-, himplied⟩
      · cases hsome
      · exact (isSpecial_of_defaultPort? himplied).2
    obtain ⟨url, hparse, hscheme, huser, hhost, hurl⟩ :=
      Url.exists_parse_eq_ok haddress hkind hown hspecial
    refine .inr ⟨hkind, url, hparse, hscheme, hhost, ?_, huser⟩
    rw [hurl, port?]
    rcases hport with rfl | ⟨rfl, himplied⟩
    · simp only [eq_comm]
    · simp [himplied]

/-- What is read of an endpoint's text is of the endpoint exactly if it is a proper one. -/
theorem names_iff_isProper (ht : IsScheme e.scheme → e.Spells text)
    (hparse : Url.parse text = .ok url) : e.Names url ↔ e.IsProper := by
  constructor
  · rintro ⟨hscheme, ⟨h, hown, -⟩, -, -⟩
    refine ⟨?_, h, hown⟩
    have hread := Url.isScheme_of_parse hparse
    rwa [hscheme, Url.isScheme_toLower_iff] at hread
  · rintro ⟨hscheme, h, hown⟩
    rcases (ht hscheme).parse_cases hown with ⟨-, cause, herror⟩ | ⟨-, url', hok, hl⟩
    · cases hparse.symm.trans herror
    · cases hparse.symm.trans hok
      exact hl.names hown

theorem url_eq_ok_iff :
    e.url d = .ok url ↔ Url.parse (e.base ++ ":" ++ toString e.port) = .ok url := by
  unfold Endpoint.url
  split <;> simp only [*, Except.ok.injEq, reduceCtorEq]

theorem resolve_eq_ok_iff : e.resolve u = .ok url ↔ Url.parse (e.target u) = .ok url := by
  unfold resolve
  split <;> simp only [*, Except.ok.injEq, reduceCtorEq]

/-- Two computed URLs agree on scheme, host and port, or there is neither. -/
def Agree : Except Unavailable Url → Except Unavailable Url → Prop
  | .ok a, .ok b => a.scheme = b.scheme ∧ a.host = b.host ∧ a.port = b.port
  | .error _, .error _ => True
  | _, _ => False

theorem agree_of_isProper (he : e.IsGiven) (hproper : e.IsProper)
    (hu : ServiceUri.parse text = .ok u) : Agree (e.url d) (e.resolve u) := by
  obtain ⟨hscheme, h, hown⟩ := hproper
  have hfind := (spells_url hscheme he).parse_cases hown
  have hresolve := (spells_target hscheme he hu).parse_cases hown
  unfold Endpoint.url Endpoint.resolve
  rcases hfind with ⟨hfile, cause, herror⟩ | ⟨hkind, a, ha, hla⟩
  · rcases hresolve with ⟨-, cause', herror'⟩ | ⟨hkind, -⟩
    · rw [herror, herror']
      trivial
    · exact absurd hfile hkind
  · rcases hresolve with ⟨hfile, -⟩ | ⟨-, b, hb, hlb⟩
    · exact absurd hfile hkind
    · rw [ha, hb]
      exact ⟨hla.scheme_eq.trans hlb.scheme_eq.symm, hla.host_eq.trans hlb.host_eq.symm,
        hla.port_eq.trans hlb.port_eq.symm⟩

end Endpoint

namespace Client

variable {c : Client} {service text : String} {kind : Option String} {u : ServiceUri} {r : Record}
  {url : Url} {found : Except Unavailable Record}

/-! ### Lookups of URLs -/

theorem urlOf_eq : urlOf service kind found = found.bind fun r =>
    (Endpoint.ofRecord (Record.describe service kind) r).bind
      (·.url (Record.describe service kind)) := rfl

theorem resolveAt_eq (henabled : c.settings.enabled = true) :
    c.resolveAt u found = found.bind fun r =>
      (Endpoint.ofRecord (Record.describe u.name u.kind) r).bind (·.resolve u) := by
  rw [resolveAt, henabled]
  rfl

theorem resolveAt_of_disabled (hdisabled : c.settings.enabled = false) :
    c.resolveAt u found = .error .disabled := by
  rw [resolveAt, hdisabled]
  rfl

/-- What comes of an instance that was found comes of its endpoint. -/
theorem exists_endpoint {d : String} {use : Endpoint → Except Unavailable Url}
    (h : (found.bind fun r => (Endpoint.ofRecord d r).bind use) = .ok url) :
    ∃ r e, found = .ok r ∧ Endpoint.ofRecord d r = .ok e ∧ use e = .ok url := by
  cases found with
  | error cause => cases h
  | ok r =>
      cases he : Endpoint.ofRecord d r with
      | error cause => simp [Except.bind, he] at h
      | ok e => exact ⟨r, e, rfl, he, by simpa [Except.bind, he] using h⟩

/-- The URL of an instance and that of a service URI at it agree if its endpoint is proper. -/
theorem agree_urlOf_resolveAt (henabled : c.settings.enabled = true)
    (hu : ServiceUri.parse text = .ok u)
    (hproper : ∀ d e, Endpoint.ofRecord d r = .ok e → e.IsProper) :
    Endpoint.Agree (urlOf service kind (.ok r)) (c.resolveAt u (.ok r)) := by
  rw [resolveAt_eq henabled, urlOf_eq]
  rcases Endpoint.ofRecord_cases r with ⟨e, he⟩ | hnone
  · simp only [he, Except.bind]
    exact Endpoint.agree_of_isProper (Endpoint.isGiven_of_ofRecord (he ""))
      (hproper "" e (he "")) hu
  · obtain ⟨cause, hfind⟩ := hnone (Record.describe service kind)
    obtain ⟨cause', hresolve⟩ := hnone (Record.describe u.name u.kind)
    simp only [hfind, hresolve, Except.bind]
    trivial

/-! ### Clients that know one instance -/

/-- A client finds the one instance that it knows. -/
theorem find_knowing_singleton (r : Record) (key : String) :
    (knowing [r]).find r.name r.kind [.hash key] {} = .ok r := by
  have hname : ∀ s ∈ [r], s.name = r.name := fun s hs => congrArg _ (List.mem_singleton.mp hs)
  have hmem : ∀ s, s ∈ (knowing [r]).findAll r.name ↔ s = r := fun s =>
    (mem_findAll_knowing hname).trans List.mem_singleton
  have htwins : Ring.NoTwins ((knowing [r]).findAll r.name) := fun a ha b hb _ =>
    ((hmem a).mp ha).trans ((hmem b).mp hb).symm
  have hdraw : Draw.ring {} ∈ (knowing [r]).ringDraws r.name := by
    rw [ringDraws_knowing hname]
    exact List.mem_range.mpr Nat.one_pos
  have hoffsets : (knowing [r]).layout.offsets ≠ [] := List.cons_ne_nil _ _
  rcases find_cases (isBuilt_knowing [r]) htwins hoffsets
    (rfl : hashKey? [.hash key] = some key) hdraw r.kind with
    ⟨k, s, hs, hserved, -, hfind⟩ | ⟨hnone, -⟩
  · obtain ⟨s', hs', hget⟩ := Ring.exists_get_build hoffsets hs.there key
    obtain rfl := Except.ok.inj (hserved.symm.trans hget)
    rwa [(hmem s).mp (Pool.mem_ofKind.mp hs').1] at hfind
  · exact absurd ⟨Pool.ofKind_ne_nil_iff.mpr ⟨r, (hmem r).mpr rfl, rfl⟩, .inl rfl⟩ (hnone r.kind)

theorem findUrl_knowing (r : Record) (key : String) :
    (knowing [r]).findUrl r.name r.kind [.hash key] {} = urlOf r.name r.kind (.ok r) :=
  congrArg (urlOf r.name r.kind) (find_knowing_singleton r key)

theorem resolve_knowing (hname : u.name = r.name) (hkind : u.kind = r.kind) (key : String) :
    (knowing [r]).resolve u [.hash key] {} = (knowing [r]).resolveAt u (.ok r) := by
  rw [resolve, hname, hkind, find_knowing_singleton]

/-- An instance of the service `web` at an address and a port. -/
def webAt (address : String) (port : Nat) : Record where
  name := "web"
  kind := some "http"
  id := .ofDigits []
  properties := Record.endpointProperties "http" address port
  isStatic := true
  name_ne := Record.written_name_ne "web"

/-- The service URI `srvc://web:http/`. -/
def webRoot : ServiceUri where
  name := "web"
  kind := some "http"
  path := "/"
  query := none
  fragment := none

theorem parse_webRoot : ServiceUri.parse "srvc://web:http/" = .ok webRoot := by decide

/-! ### What is found -/

/-- A URL that is found is of the instance's scheme, host and port, and of no user, exactly if the
instance has a proper endpoint; so is the URL that a service URI stands for. At instances with
proper endpoints, or with none, the two agree on scheme, host and port, and either is refused with
the other.

Hosts are those of `Url.Host.read`, which refuses every domain beyond ASCII: an address with such a
domain is the text of no host here, and leads to no URL of a special scheme. -/
theorem urls_name_proper_endpoints (hu : ServiceUri.parse text = .ok u) (c : Client)
    (hints : List Hint) (draw : Draw) :
    (∀ service kind url, c.findUrl service kind hints draw = .ok url →
      ∃ r e, c.find service kind hints draw = .ok r ∧
        Endpoint.ofRecord (Record.describe service kind) r = .ok e ∧
        (e.Names url ↔ e.IsProper)) ∧
    (∀ url, c.resolve u hints draw = .ok url →
      ∃ r e, c.find u.name u.kind hints draw = .ok r ∧
        Endpoint.ofRecord (Record.describe u.name u.kind) r = .ok e ∧
        (e.Names url ↔ e.IsProper)) ∧
    (c.settings.enabled = true → ∀ service kind r,
      (∀ d e, Endpoint.ofRecord d r = .ok e → e.IsProper) →
        Endpoint.Agree (urlOf service kind (.ok r)) (c.resolveAt u (.ok r))) := by
  refine ⟨fun service kind url hurl => ?_, fun url hurl => ?_, fun henabled service kind r hr => ?_⟩
  · obtain ⟨r, e, hfind, he, hurl⟩ := exists_endpoint hurl
    have hgiven := Endpoint.isGiven_of_ofRecord he
    exact ⟨r, e, hfind, he, Endpoint.names_iff_isProper
      (fun hscheme => Endpoint.spells_url hscheme hgiven) (Endpoint.url_eq_ok_iff.mp hurl)⟩
  · obtain ⟨r, e, hfind, he, hurl⟩ : ∃ r e, c.find u.name u.kind hints draw = .ok r ∧
        Endpoint.ofRecord (Record.describe u.name u.kind) r = .ok e ∧ e.resolve u = .ok url := by
      cases henabled : c.settings.enabled with
      | false => cases (resolveAt_of_disabled henabled).symm.trans hurl
      | true => exact exists_endpoint ((resolveAt_eq henabled).symm.trans hurl)
    have hgiven := Endpoint.isGiven_of_ofRecord he
    exact ⟨r, e, hfind, he, Endpoint.names_iff_isProper
      (fun hscheme => Endpoint.spells_target hscheme hgiven hu)
      (Endpoint.resolve_eq_ok_iff.mp hurl)⟩
  · exact agree_urlOf_resolveAt henabled hu hr

/-- An IPv6 address goes into brackets on the way. -/
theorem urls_name_proper_endpoints_of_ipv6 :
    let r := webAt "::1" 8080
    let c := knowing [r]
    ∃ e url url', Endpoint.ofRecord "web/http" r = .ok e ∧ e.IsProper ∧
      c.findUrl "web" (some "http") [.hash "session-1234"] {} = .ok url ∧ e.Names url ∧
      c.resolve webRoot [.hash "session-1234"] {} = .ok url' ∧ e.Names url' ∧
      Endpoint.Agree (.ok url) (.ok url') := by
  intro r c
  let e : Endpoint := ⟨"http", "::1", 8080⟩
  let url : Url := {
    scheme := "http", host := some (.ipv6 [0, 0, 0, 0, 0, 0, 0, 1]), port := some 8080
    path := .segments [[]] }
  have he : ∀ d, Endpoint.ofRecord d r = .ok e := fun d => rfl
  have hproper : e.IsProper := by
    refine ⟨by decide, .ipv6 [0, 0, 0, 0, 0, 0, 0, 1], ?_⟩
    rw [Endpoint.ownHost, Url.toLower_eq]
    decide
  have hfind : c.find "web" (some "http") [.hash "session-1234"] {} = .ok r :=
    find_knowing_singleton r "session-1234"
  have hurl : urlOf "web" (some "http") (.ok r) = .ok url := by decide
  have hresolve : c.resolveAt webRoot (.ok r) = .ok url := by decide
  have hfindUrl := (findUrl_knowing r "session-1234").trans hurl
  have hresolveUrl : c.resolve webRoot [.hash "session-1234"] {} = .ok url :=
    (resolve_knowing rfl rfl "session-1234").trans hresolve
  obtain ⟨hfound, hresolved, hagree⟩ :=
    urls_name_proper_endpoints parse_webRoot c [.hash "session-1234"] {}
  obtain ⟨r₁, e₁, hr₁, he₁, hnames⟩ := hfound _ _ _ hfindUrl
  obtain ⟨r₂, e₂, hr₂, he₂, hnames'⟩ := hresolved _ hresolveUrl
  cases hfind.symm.trans hr₁
  cases (he _).symm.trans he₁
  cases hfind.symm.trans hr₂
  cases (he _).symm.trans he₂
  have hboth := hagree rfl "web" (some "http") r fun d e' he' => by
    cases (he d).symm.trans he'
    exact hproper
  rw [hurl, hresolve] at hboth
  exact ⟨e, url, url, he _, hproper, hfindUrl, hnames.mpr hproper, hresolveUrl,
    hnames'.mpr hproper, hboth⟩

/-- An address may hold more than a host. With a path in it the port goes into the path. With a
port in it the lookup of the URL is refused, but that of a service URI, where a port that the scheme
implies is left out, comes to a URL of the wrong port. -/
theorem addresses_reach_beyond_hosts :
    (let r := webAt "10.0.0.1/x" 8080
      let e : Endpoint := ⟨"http", "10.0.0.1/x", 8080⟩
      Endpoint.ofRecord "web/http" r = .ok e ∧
      (∃ url, (knowing [r]).findUrl "web" (some "http") [.hash "session-1234"] {} = .ok url ∧
        url.host = some (.ipv4 0x0a000001) ∧ ¬e.Names url) ∧
      ∃ url, (knowing [r]).resolve webRoot [.hash "session-1234"] {} = .ok url ∧
        url.host = some (.ipv4 0x0a000001) ∧ ¬e.Names url) ∧
    let r := webAt "a:8" 80
    (∃ cause, (knowing [r]).findUrl "web" (some "http") [.hash "session-1234"] {} =
      .error cause) ∧
    ∃ url, (knowing [r]).resolve webRoot [.hash "session-1234"] {} = .ok url ∧
      url.port = some 8 := by
  refine ⟨⟨rfl, ⟨?_, ?_⟩⟩, ⟨?_, ?_⟩⟩
  · let url : Url := {
      scheme := "http", host := some (.ipv4 0x0a000001), path := .segments ["x:8080".toList] }
    refine ⟨url, (findUrl_knowing _ _).trans ?_, rfl, fun hnames => ?_⟩
    · decide
    · exact absurd hnames.port_eq (by decide)
  · let url : Url := {
      scheme := "http", host := some (.ipv4 0x0a000001)
      path := .segments ["x:8080".toList, []] }
    refine ⟨url, (resolve_knowing rfl rfl _).trans ?_, rfl, fun hnames => ?_⟩
    · decide
    · exact absurd hnames.port_eq (by decide)
  · exact ⟨.badUrl "web/http" .invalidPort, (findUrl_knowing _ _).trans (by decide)⟩
  · let url : Url := {
      scheme := "http", host := some (.domain "a"), port := some 8, path := .segments [[]] }
    exact ⟨url, (resolve_knowing rfl rfl _).trans (by decide), rfl⟩

end Client

end ServiceRegistry
