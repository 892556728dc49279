import Mathlib.Data.List.TakeWhile
import ServiceRegistry.ServiceUri

/-! # The grammar of service URIs

`ServiceUri.Spells` says what a service URI is without the order in which a reader looks for
separators: which characters each part is free of, and how the text is put together from the parts.
Reading accepts exactly the texts of this grammar and finds the parts, of which there is one choice
only; what was read is written as it stood there. The causes of refusal have an order of their own,
`ServiceUri.refusal` (`ServiceUri.parse_follows_grammar`). -/

namespace ServiceRegistry

namespace ServiceUri

open Text (cut mark cut_eq_iff)

variable {text : String} {u v : ServiceUri}

theorem after?_eq_some_iff {start cs rest : List Char} :
    after? start cs = some rest ↔ cs = start ++ rest := by
  induction start generalizing cs with
  | nil => simp [after?, eq_comm]
  | cons x xs ih =>
      cases cs with
      | nil => simp [after?]
      | cons c cs => by_cases hx : x = c <;> simp [after?, hx, ih, eq_comm]

/-! ### The grammar -/

/-- None of some characters stands in the text. -/
def IsFree (stops : List Char) (s : String) : Prop := ∀ c ∈ stops, c ∉ s.toList

/-- A text is spelled `srvc://name[:type]path[?query][#fragment]`, and these are its parts. -/
structure Spells (text : String) (u : ServiceUri) : Prop where
  text_eq : text = "srvc://" ++ u.name ++ u.kind.elim "" (":" ++ ·) ++ u.path ++
    u.query.elim "" ("?" ++ ·) ++ u.fragment.elim "" ("#" ++ ·)
  name_ne : u.name ≠ ""
  name_free : IsFree [':', '/', '?', '#'] u.name
  kind_free : ∀ kind ∈ u.kind, IsFree ['/', '?', '#'] kind
  path_slash : u.path.toList.head? = some '/'
  path_free : IsFree ['?', '#'] u.path
  query_free : ∀ query ∈ u.query, IsFree ['#'] query

/-- What stands between the scheme and the first `?` or `#`: the service and the path. -/
def front (text : String) : List Char :=
  (text.toList.drop scheme.length).takeWhile fun c => c ≠ '?' ∧ c ≠ '#'

/-- Why a text that is not spelled so is refused. -/
def refusal (text : String) : Error :=
  if ¬scheme <+: text.toList then .unsupportedScheme text
  else if '/' ∉ front text then .missingPath text
  else .emptyName text

/-! ### Reading -/

theorem toList_elim (c : Char) (part : Option String) :
    (part.elim "" (String.singleton c ++ ·)).toList = mark c (part.map String.toList) := by
  cases part <;> simp [mark]

/-- The characters of a written URI. -/
theorem toList_text (u : ServiceUri) :
    u.text.toList = scheme ++ (u.name.toList ++ mark ':' (u.kind.map String.toList) ++
      u.path.toList ++ mark '?' (u.query.map String.toList) ++
      mark '#' (u.fragment.map String.toList)) := by
  have hkind := toList_elim ':' u.kind
  have hquery := toList_elim '?' u.query
  have hfragment := toList_elim '#' u.fragment
  simp only [text, String.toList_append, String.toList_ofList, List.append_assoc]
  rw [← hkind, ← hquery, ← hfragment]
  rfl

theorem ofList_scheme : String.ofList scheme = "srvc://" := String.ofList_toList

theorem Spells.eq_text (h : Spells text u) : text = u.text := by
  rw [h.text_eq, ServiceUri.text, ofList_scheme]

/-- The parts that the cuts of a text leave spell it. -/
theorem spells_of_cuts {rest rest₁ rest₂ service name path : List Char}
    {kind query fragment : Option (List Char)} (hscheme : after? scheme text.toList = some rest)
    (hfragment : cut '#' rest = (rest₁, fragment)) (hquery : cut '?' rest₁ = (rest₂, query))
    (hpath : cut '/' rest₂ = (service, some path)) (hkind : cut ':' service = (name, kind))
    (hname : name ≠ []) :
    Spells text
      { name := .ofList name, kind := kind.map .ofList, path := .ofList ('/' :: path)
        query := query.map .ofList, fragment := fragment.map .ofList } := by
  rw [after?_eq_some_iff] at hscheme
  obtain ⟨rfl, hfree₁⟩ := (cut_eq_iff _).mp hfragment
  obtain ⟨rfl, hfree₂⟩ := (cut_eq_iff _).mp hquery
  obtain ⟨rfl, hfree₃⟩ := (cut_eq_iff _).mp hpath
  obtain ⟨rfl, hfree₄⟩ := (cut_eq_iff _).mp hkind
  simp only [List.mem_append, not_or] at hfree₁ hfree₂ hfree₃
  obtain ⟨⟨⟨hname₁, hkind₁⟩, hpath₁⟩, hquery₁⟩ := hfree₁
  obtain ⟨⟨hname₂, hkind₂⟩, hpath₂⟩ := hfree₂
  obtain ⟨hname₃, hkind₃⟩ := hfree₃
  refine ⟨?_, ?_, ?_, ?_, by simp, ?_, ?_⟩
  · have htext : text = ServiceUri.text
        { name := .ofList name, kind := kind.map .ofList, path := .ofList ('/' :: path)
          query := query.map .ofList, fragment := fragment.map .ofList } := by
      rw [← String.toList_inj, toList_text, hscheme]
      simp [Function.comp_def, mark]
    rw [htext, ServiceUri.text, ofList_scheme]
  · simpa [← String.toList_inj] using hname
  · simp [IsFree, *]
  · cases kind with
    | none => simp
    | some kind => simp_all [IsFree, mark]
  · simp_all [IsFree, mark]
  · cases query with
    | none => simp
    | some query => simp_all [IsFree, mark]

theorem front_eq {rest : List Char} (h : after? scheme text.toList = some rest) :
    front text = (cut '?' (cut '#' rest).1).1 := by
  rw [after?_eq_some_iff] at h
  rw [front, h, List.drop_left, Text.fst_cut, Text.fst_cut, List.takeWhile_takeWhile]
  simp

/-- A text is read as its parts, or it is refused. -/
theorem parse_cases (text : String) :
    (∃ u, parse text = .ok u ∧ Spells text u) ∨ parse text = .error (refusal text) := by
  unfold parse refusal
  cases hscheme : after? scheme text.toList with
  | none =>
      have hprefix : ¬scheme <+: text.toList := by
        rintro ⟨rest, hrest⟩
        cases hscheme.symm.trans (after?_eq_some_iff.mpr hrest.symm)
      exact .inr (by rw [if_pos hprefix])
  | some rest =>
      have hprefix : scheme <+: text.toList := ⟨rest, (after?_eq_some_iff.mp hscheme).symm⟩
      have hfront := front_eq hscheme
      rcases hfragment : cut '#' rest with ⟨rest₁, fragment⟩
      rcases hquery : cut '?' rest₁ with ⟨rest₂, query⟩
      rw [hfragment, hquery] at hfront
      rcases hpath : cut '/' rest₂ with ⟨service, _ | path⟩
      · have hslash : '/' ∉ front text := by
          rw [hfront, ← Text.snd_cut_eq_none_iff, hpath]
        refine .inr ?_
        simp only [hfragment, hquery, hpath, hprefix, hslash, not_true_eq_false, not_false_eq_true,
          ↓reduceIte]
      · have hslash : '/' ∈ front text := by
          rw [hfront, ((cut_eq_iff _).mp hpath).1]
          simp [mark]
        rcases hkind : cut ':' service with ⟨name, kind⟩
        by_cases hname : name = []
        · refine .inr ?_
          simp only [hfragment, hquery, hpath, hkind, hname, hprefix, hslash, not_true_eq_false,
            ↓reduceIte]
        · refine .inl ⟨_, ?_, spells_of_cuts hscheme hfragment hquery hpath hkind hname⟩
          simp only [hfragment, hquery, hpath, hkind, if_neg hname]

theorem not_mem_mark {c x : Char} {stops : List Char} {part : Option String}
    (h : ∀ s ∈ part, IsFree stops s) (hx : x ∈ stops) (hne : x ≠ c) :
    x ∉ mark c (part.map String.toList) := by
  cases part with
  | none => simp [mark]
  | some s =>
      have hfree : x ∉ s.toList := h s rfl x hx
      simp [mark, hne, hfree]

/-- The parts that spell a text are read. -/
theorem parse_of_spells (h : Spells text u) : parse text = .ok u := by
  obtain ⟨path, hpath⟩ : ∃ path, u.path.toList = '/' :: path :=
    List.head?_eq_some_iff.mp h.path_slash
  have hchars : text.toList = scheme ++ (u.name.toList ++ mark ':' (u.kind.map String.toList) ++
      mark '/' (some path) ++ mark '?' (u.query.map String.toList) ++
      mark '#' (u.fragment.map String.toList)) := by
    rw [h.eq_text, toList_text, hpath]
    rfl
  have hname : ∀ c ∈ [':', '/', '?', '#'], c ∉ u.name.toList := h.name_free
  have hkind : ∀ c ∈ ['/', '?', '#'], c ∉ mark ':' (u.kind.map String.toList) := fun c hc =>
    not_mem_mark h.kind_free hc (by rintro rfl; simp at hc)
  have hpath' : ∀ c ∈ ['?', '#'], c ∉ mark '/' (some path) := by
    intro c hc
    have hfree := h.path_free c hc
    rwa [hpath] at hfree
  have hquery : '#' ∉ mark '?' (u.query.map String.toList) :=
    not_mem_mark h.query_free (by simp) (by decide)
  have hne : u.name.toList ≠ [] := fun hnil => h.name_ne (String.toList_inj.mp hnil)
  rw [parse, after?_eq_some_iff.mpr hchars]
  dsimp only
  rw [Text.cut_mark _ (by simp [hname, hkind, hpath', hquery])]
  dsimp only
  rw [Text.cut_mark _ (by simp [hname, hkind, hpath'])]
  dsimp only
  rw [Text.cut_mark _ (by simp [hname, hkind])]
  dsimp only
  rw [Text.cut_mark _ (by simp [hname])]
  simp only [if_neg hne, ← hpath, Option.map_map, String.ofList_toList, Function.comp_def,
    Option.map_id']

/-! ### The grammar is followed -/

/-- Reading accepts exactly the texts of the grammar and finds their parts. There is one choice of
them; written again they are the text, which reads as before. Any other text is refused, for the
first cause that applies. -/
theorem parse_follows_grammar (text : String) :
    (∀ u, parse text = .ok u ↔ Spells text u) ∧
    (∀ u v, Spells text u → Spells text v → u = v) ∧
    (∀ u, parse text = .ok u → u.text = text ∧ parse u.text = .ok u) ∧
    ((∀ u, ¬Spells text u) → parse text = .error (refusal text)) := by
  have hread : ∀ u, parse text = .ok u ↔ Spells text u := by
    intro u
    refine ⟨fun h => ?_, parse_of_spells⟩
    rcases parse_cases text with ⟨v, hv, hspells⟩ | herror
    · cases h.symm.trans hv
      exact hspells
    · cases h.symm.trans herror
  refine ⟨hread, fun u v hu hv => ?_, fun u h => ?_, fun h => ?_⟩
  · exact Except.ok.inj ((parse_of_spells hu).symm.trans (parse_of_spells hv))
  · have htext : text = u.text := ((hread u).mp h).eq_text
    exact ⟨htext.symm, htext ▸ h⟩
  · rcases parse_cases text with ⟨v, -, hspells⟩ | herror
    · exact absurd hspells (h v)
    · exact herror

/-- A URI in which separators stand in the parts that come later. -/
def crowded : ServiceUri := ⟨"follow", some "a:b", "/x:y/z", some "p?/q", some "#:/?"⟩

theorem parse_follows_grammar_of_crowded :
    parse "srvc://follow:a:b/x:y/z?p?/q##:/?" = .ok crowded ∧
      Spells "srvc://follow:a:b/x:y/z?p?/q##:/?" crowded ∧
      crowded.text = "srvc://follow:a:b/x:y/z?p?/q##:/?" ∧
      (∀ u, ¬Spells "srvc://:a?/#" u) ∧
      parse "srvc://:a?/#" = .error (.missingPath "srvc://:a?/#") := by
  have hread : parse "srvc://follow:a:b/x:y/z?p?/q##:/?" = .ok crowded := by decide +kernel
  obtain ⟨hspells, -, hwritten, -⟩ := parse_follows_grammar "srvc://follow:a:b/x:y/z?p?/q##:/?"
  obtain ⟨hspells', -, -, hrefused⟩ := parse_follows_grammar "srvc://:a?/#"
  have hnone : ∀ u, ¬Spells "srvc://:a?/#" u := by
    intro u hu
    have herror : parse "srvc://:a?/#" = .error (.missingPath "srvc://:a?/#") := by decide +kernel
    cases herror.symm.trans ((hspells' u).mpr hu)
  exact ⟨hread, (hspells crowded).mp hread, (hwritten crowded hread).1, hnone,
    (hrefused hnone).trans (by decide +kernel)⟩

end ServiceUri

end ServiceRegistry
